import Aof.Proof.CallbackDepth

/-!
# One delivery of a completion

A delivery is decided by what the call has read, and its outcome is written after the session has
been awaited.  If no two deliveries of a subscription overlap, at most one succeeds.
-/

namespace Aof.CallbackDelivery

open Interleaving (Pool Turn Assertion)

section Record

variable (taskId subscriptionId : String)

def Event.spawns : Event → Bool
  | .spawned session => session.taskId = taskId ∧ session.subscriptionId = subscriptionId
  | _ => false

def attempts (history : List Event) : Nat := history.countP (Event.spawns taskId subscriptionId)

def successes (history : List Event) : Nat :=
  history.count (.succeeded taskId subscriptionId)

def settlements (history : List Event) : Nat := history.count (.settled taskId subscriptionId)

end Record

/-- No overlap: a session is spawned for the subscription that the file still has, when all earlier
deliveries of it are settled, and an update is written to the file that it has read. -/
structure Serial (pool : Pool Shared Process) (turn : Turn Answer) : Prop where
  spawn : ∀ call task sub rest, pool.processes[turn.index]? =
    some (.delivering call task (sub :: rest)) →
    ∀ entry, findSubscription (pool.shared.subscriptions call.taskId) sub.id = some entry →
    entry.granularity = .completion →
    entry = sub ∧ settlements call.taskId sub.id pool.shared.history =
      attempts call.taskId sub.id pool.shared.history
  write : ∀ delivery fields read,
    pool.processes[turn.index]? = some (.writing delivery fields read) →
    pool.shared.subscriptions delivery.call.taskId = read

section Once

variable {taskId subscriptionId : String}

structure Consistent (taskId subscriptionId : String) (shared : Shared)
    (entry : TaskSubscription) : Prop where
  found : findSubscription (shared.subscriptions taskId) subscriptionId = some entry
  completion : entry.granularity = .completion
  once : successes taskId subscriptionId shared.history ≤ 1
  bounded : attempts taskId subscriptionId shared.history ≤ MAX_DELIVERY_ATTEMPTS
  settled : settlements taskId subscriptionId shared.history ≤
    attempts taskId subscriptionId shared.history
  quiet : settlements taskId subscriptionId shared.history =
    attempts taskId subscriptionId shared.history → entry.status = .active →
    successes taskId subscriptionId shared.history = 0 ∧
      attempts taskId subscriptionId shared.history ≤ entry.deliveryAttempts ∧
      attempts taskId subscriptionId shared.history < MAX_DELIVERY_ATTEMPTS

/-- A delivery of the subscription is in flight, with this many successes so far. -/
structure Flying (taskId subscriptionId : String) (shared : Shared) (delivery : Delivery)
    (succeeded : Nat) : Prop where
  found : findSubscription (shared.subscriptions taskId) subscriptionId = some delivery.sub
  unsettled : settlements taskId subscriptionId shared.history + 1 =
    attempts taskId subscriptionId shared.history
  counted : attempts taskId subscriptionId shared.history ≤ delivery.sub.deliveryAttempts + 1
  successes : successes taskId subscriptionId shared.history = succeeded

def Delivery.Of (taskId subscriptionId : String) (delivery : Delivery) : Prop :=
  delivery.call.taskId = taskId ∧ delivery.sub.id = subscriptionId

/-- What a call lists, and which subscriptions of granularity `all` it lists only. -/
def Call.Lists (call : Call) (subs : List TaskSubscription) : Prop :=
  ∀ sub ∈ subs, sub.status = .active ∧
    (call.entry = .deliverAllGranularityCallbacks → sub.granularity = .all)

def Process.Lists : Process → Prop
  | .delivering call _ subs | .leaving call _ subs => call.Lists subs
  | .awaiting delivery | .updating delivery _ _ | .writing delivery _ _ =>
      delivery.call.Lists (delivery.sub :: delivery.rest)
  | _ => True

/-- An update ends the delivery of a session that succeeded, or counts a failure. -/
def Settles (delivery : Delivery) (fields : SubscriptionFields) (succeeded : Nat) : Prop :=
  fields.status = some .delivered ∧ succeeded ≤ 1 ∨
    succeeded = 0 ∧ ∃ now message, fields = failureFields delivery.sub now message

def Process.Knows (taskId subscriptionId : String) (shared : Shared) : Process → Prop
  | .awaiting delivery =>
      delivery.Of taskId subscriptionId → Flying taskId subscriptionId shared delivery 0
  | .updating delivery fields _ | .writing delivery fields _ =>
      delivery.Of taskId subscriptionId →
        ∃ succeeded, Flying taskId subscriptionId shared delivery succeeded ∧
          Settles delivery fields succeeded
  | _ => True

def once (taskId subscriptionId : String) : Assertion Shared Process where
  global shared := ∃ entry, Consistent taskId subscriptionId shared entry
  waiting shared process :=
    process.Lists ∧ process.Knows taskId subscriptionId shared
  apart p q := ∀ delivery, p.delivery = some delivery → delivery.Of taskId subscriptionId →
    ∀ other, q.delivery = some other → ¬other.Of taskId subscriptionId

structure Unchanged (taskId subscriptionId : String) (before after : Shared) : Prop where
  found : findSubscription (after.subscriptions taskId) subscriptionId =
    findSubscription (before.subscriptions taskId) subscriptionId
  attempts : attempts taskId subscriptionId after.history =
    attempts taskId subscriptionId before.history
  successes : successes taskId subscriptionId after.history =
    successes taskId subscriptionId before.history
  settlements : settlements taskId subscriptionId after.history =
    settlements taskId subscriptionId before.history

theorem Unchanged.refl (taskId subscriptionId : String) (shared : Shared) :
    Unchanged taskId subscriptionId shared shared := ⟨rfl, rfl, rfl, rfl⟩

variable {before after : Shared} {entry : TaskSubscription} {delivery : Delivery}
variable {process next : Process} {answer : Answer} {succeeded : Nat}

section

variable (hunchanged : Unchanged taskId subscriptionId before after)
include hunchanged

theorem Consistent.congr (hconsistent : Consistent taskId subscriptionId before entry) :
    Consistent taskId subscriptionId after entry := by
  obtain ⟨hfound, hattempts, hsuccesses, hsettlements⟩ := hunchanged
  obtain ⟨hentry, hcompletion, honce, hbounded, hsettled, hquiet⟩ := hconsistent
  rw [← hfound] at hentry
  rw [← hattempts] at hbounded
  rw [← hsuccesses] at honce
  rw [← hattempts, ← hsettlements] at hsettled
  rw [← hattempts, ← hsettlements, ← hsuccesses] at hquiet
  exact ⟨hentry, hcompletion, honce, hbounded, hsettled, hquiet⟩

theorem Flying.congr (hflying : Flying taskId subscriptionId before delivery succeeded) :
    Flying taskId subscriptionId after delivery succeeded := by
  obtain ⟨hfound, hattempts, hsuccesses, hsettlements⟩ := hunchanged
  obtain ⟨hentry, hunsettled, hcounted, hcount⟩ := hflying
  rw [← hfound] at hentry
  rw [← hattempts, ← hsettlements] at hunsettled
  rw [← hattempts] at hcounted
  rw [← hsuccesses] at hcount
  exact ⟨hentry, hunsettled, hcounted, hcount⟩

theorem Process.Knows.congr (hknows : process.Knows taskId subscriptionId before) :
    process.Knows taskId subscriptionId after := by
  cases process with
  | awaiting delivery => exact fun hof => (hknows hof).congr hunchanged
  | updating delivery fields rescued =>
      intro hof
      obtain ⟨succeeded, hflying, hsettles⟩ := hknows hof
      exact ⟨succeeded, hflying.congr hunchanged, hsettles⟩
  | writing delivery fields read =>
      intro hof
      obtain ⟨succeeded, hflying, hsettles⟩ := hknows hof
      exact ⟨succeeded, hflying.congr hunchanged, hsettles⟩
  | _ => trivial

end

variable {shared : Shared} {event : Event} {fields : SubscriptionFields}
  {read : List TaskSubscription} {moved : Shared × Process} {pool : Pool Shared Process}

theorem Process.Knows.of_other
    (hother : ∀ delivery, process.delivery = some delivery → ¬delivery.Of taskId subscriptionId) :
    process.Knows taskId subscriptionId shared := by
  cases process with
  | awaiting delivery => exact fun hof => absurd hof (hother delivery rfl)
  | updating delivery fields rescued => exact fun hof => absurd hof (hother delivery rfl)
  | writing delivery fields read => exact fun hof => absurd hof (hother delivery rfl)
  | _ => trivial

def Event.subject : Event → String × String
  | .spawned session => (session.taskId, session.subscriptionId)
  | .succeeded taskId subscriptionId | .settled taskId subscriptionId => (taskId, subscriptionId)

theorem count_record {other : Event} (hne : event ≠ other) (shared : Shared) :
    (shared.record event).history.count other = shared.history.count other := by
  have hzero : [event].count other = 0 :=
    List.count_eq_zero.mpr fun hmem => hne (List.mem_singleton.mp hmem).symm
  rw [Shared.record, List.count_append, hzero, Nat.add_zero]

theorem unchanged_record (hsubject : event.subject ≠ (taskId, subscriptionId)) :
    Unchanged taskId subscriptionId before (before.record event) := by
  refine ⟨rfl, ?_, ?_, ?_⟩
  · unfold attempts Shared.record
    rw [List.countP_append, List.countP_singleton, if_neg, Nat.add_zero]
    cases event with
    | spawned session =>
        intro hspawns
        obtain ⟨htask, hsub⟩ := of_decide_eq_true hspawns
        exact hsubject (Prod.ext htask hsub)
    | succeeded => exact Bool.false_ne_true
    | settled => exact Bool.false_ne_true
  · apply count_record
    rintro rfl
    exact hsubject rfl
  · apply count_record
    rintro rfl
    exact hsubject rfl

def Process.Targets (taskId subscriptionId : String) : Process → Prop
  | .delivering call _ (sub :: _) => call.taskId = taskId ∧ sub.id = subscriptionId
  | .awaiting delivery | .updating delivery _ _ | .writing delivery _ _ =>
      delivery.Of taskId subscriptionId
  | _ => False

theorem subject_ne {call : Call} {sub : TaskSubscription}
    (hother : ¬(call.taskId = taskId ∧ sub.id = subscriptionId)) :
    (call.taskId, sub.id) ≠ (taskId, subscriptionId) :=
  fun h => hother (Prod.mk.inj h)

theorem delivery_settle (shared : Shared) (delivery : Delivery) :
    (settle shared delivery).2.delivery = none := by
  unfold settle
  cases delivery.sub.granularity <;> rfl

theorem not_of_none (hnone : process.delivery = none) :
    ∀ delivery, process.delivery = some delivery → ¬delivery.Of taskId subscriptionId := by
  intro delivery hdelivery
  rw [hnone] at hdelivery
  cases hdelivery

theorem unchanged_spawn (hother : ¬delivery.Of taskId subscriptionId) :
    Unchanged taskId subscriptionId before (spawn before delivery).1 :=
  unchanged_record (subject_ne hother)

theorem unchanged_settle (hother : ¬delivery.Of taskId subscriptionId) :
    Unchanged taskId subscriptionId before (settle before delivery).1 :=
  unchanged_record (subject_ne hother)

theorem find_write (hfile : shared.subscriptions delivery.call.taskId = read)
    (hof : delivery.Of taskId subscriptionId) :
    findSubscription ((shared.write delivery fields read).subscriptions taskId) subscriptionId =
      (findSubscription (shared.subscriptions taskId) subscriptionId).map fun sub =>
        sub.with fields := by
  obtain ⟨rfl, rfl⟩ := hof
  show findSubscription (Function.update shared.subscriptions delivery.call.taskId
    (updateSubscription read delivery.sub.id fields) delivery.call.taskId) delivery.sub.id = _
  rw [Function.update_self, findSubscription_update, if_pos rfl, hfile]

theorem find_write_of_not (hfile : shared.subscriptions delivery.call.taskId = read)
    (hother : ¬delivery.Of taskId subscriptionId) :
    findSubscription ((shared.write delivery fields read).subscriptions taskId) subscriptionId =
      findSubscription (shared.subscriptions taskId) subscriptionId := by
  show findSubscription (Function.update shared.subscriptions delivery.call.taskId
    (updateSubscription read delivery.sub.id fields) taskId) subscriptionId = _
  by_cases htask : taskId = delivery.call.taskId
  · subst htask
    rw [Function.update_self, findSubscription_update, hfile, if_neg]
    rintro rfl
    exact hother ⟨rfl, rfl⟩
  · rw [Function.update_of_ne htask]

theorem unchanged_moves {moved : Shared × Process} (hmoves : Moves answer before process moved)
    (htargets : ¬process.Targets taskId subscriptionId)
    (hwrite : ∀ delivery fields read, process = .writing delivery fields read →
      before.subscriptions delivery.call.taskId = read) :
    Unchanged taskId subscriptionId before moved.1 ∧
      ∀ delivery, moved.2.delivery = some delivery → ¬delivery.Of taskId subscriptionId := by
  have hsame : ∀ {delivery : Delivery}, ¬delivery.Of taskId subscriptionId →
      ∀ other, some delivery = some other → ¬other.Of taskId subscriptionId :=
    fun hother other h => Option.some.inj h ▸ hother
  cases hmoves with
  | stop => exact ⟨.refl _ _ _, not_of_none rfl⟩
  | begin => exact ⟨.refl _ _ _, not_of_none rfl⟩
  | list => exact ⟨.refl _ _ _, not_of_none rfl⟩
  | skip => exact ⟨.refl _ _ _, not_of_none rfl⟩
  | spawnCompletion =>
      rename_i call task sub rest
      have hspawn : Unchanged taskId subscriptionId { before with env := some (task.depth + 1) }
          (spawn { before with env := some (task.depth + 1) } { call, task, sub, rest }).1 :=
        unchanged_spawn htargets
      exact ⟨⟨hspawn.found, hspawn.attempts, hspawn.successes, hspawn.settlements⟩,
        hsame htargets⟩
  | spawnAll latest hall => exact ⟨unchanged_spawn htargets, hsame htargets⟩
  | succeed delivery rescued =>
      exact ⟨unchanged_record (subject_ne htargets), hsame htargets⟩
  | fail message rescued => exact ⟨.refl _ _ _, hsame htargets⟩
  | abandon hall => exact ⟨unchanged_settle htargets, not_of_none (delivery_settle _ _)⟩
  | read => exact ⟨.refl _ _ _, hsame htargets⟩
  | miss hmissing hafter =>
      rcases hafter with rfl | ⟨message, rfl⟩
      · exact ⟨unchanged_settle htargets, not_of_none (delivery_settle _ _)⟩
      · exact ⟨.refl _ _ _, hsame htargets⟩
  | write delivery fields read =>
      have hfile := hwrite delivery fields read rfl
      have hsettle : Unchanged taskId subscriptionId (before.write delivery fields read)
          (settle (before.write delivery fields read) delivery).1 := unchanged_settle htargets
      refine ⟨?_, not_of_none (delivery_settle _ _)⟩
      exact ⟨hsettle.found.trans (find_write_of_not hfile htargets), hsettle.attempts,
        hsettle.successes, hsettle.settlements⟩
  | leave => exact ⟨⟨rfl, rfl, rfl, rfl⟩, not_of_none rfl⟩

theorem lists_candidates (call : Call) (now : Nat) (subscriptions : List TaskSubscription) :
    call.Lists (call.candidates now subscriptions) := by
  intro sub hsub
  have htest := (List.mem_filter.mp hsub).2
  rw [Bool.and_eq_true, Bool.and_eq_true] at htest
  obtain ⟨⟨hactive, -⟩, hselects⟩ := htest
  refine ⟨of_decide_eq_true hactive, fun hentry => ?_⟩
  rw [Call.selects, hentry] at hselects
  exact of_decide_eq_true hselects

theorem lists_settle (hlists : delivery.call.Lists (delivery.sub :: delivery.rest)) :
    (settle shared delivery).2.Lists := by
  have hrest : delivery.call.Lists delivery.rest :=
    fun other hother => hlists other (List.mem_cons_of_mem _ hother)
  unfold settle
  cases delivery.sub.granularity <;> exact hrest

theorem lists_moves (hlists : process.Lists) (hmoves : Moves answer before process moved) :
    moved.2.Lists := by
  cases hmoves with
  | stop => trivial
  | begin => trivial
  | list call task => exact lists_candidates call _ _
  | skip => exact fun other hother => hlists other (List.mem_cons_of_mem _ hother)
  | spawnCompletion => exact hlists
  | spawnAll => exact hlists
  | succeed => exact hlists
  | fail => exact hlists
  | abandon => exact lists_settle hlists
  | read => exact hlists
  | miss hmissing hafter =>
      rcases hafter with rfl | ⟨message, rfl⟩
      · exact lists_settle hlists
      · exact hlists
  | write => exact lists_settle hlists
  | leave => exact hlists

theorem attempts_spawn (hof : delivery.Of taskId subscriptionId) (shared : Shared) :
    attempts taskId subscriptionId (spawn shared delivery).1.history =
      attempts taskId subscriptionId shared.history + 1 := by
  obtain ⟨rfl, rfl⟩ := hof
  show attempts _ _ (shared.history ++ [_]) = _
  rw [attempts, List.countP_append, List.countP_singleton, if_pos]
  · rfl
  · exact decide_eq_true ⟨rfl, rfl⟩

theorem successes_spawn (shared : Shared) (delivery : Delivery) :
    successes taskId subscriptionId (spawn shared delivery).1.history =
      successes taskId subscriptionId shared.history := by
  unfold successes spawn
  apply count_record
  nofun

theorem settlements_spawn (shared : Shared) (delivery : Delivery) :
    settlements taskId subscriptionId (spawn shared delivery).1.history =
      settlements taskId subscriptionId shared.history := by
  unfold settlements spawn
  apply count_record
  nofun

section

variable (hof : delivery.Of taskId subscriptionId)
include hof

theorem flying_spawn {shared : Shared}
    (hconsistent : Consistent taskId subscriptionId shared delivery.sub)
    (hactive : delivery.sub.status = .active)
    (hserial : settlements taskId subscriptionId shared.history = attempts taskId subscriptionId
      shared.history) : Consistent taskId subscriptionId (spawn shared delivery).1 delivery.sub ∧
      Flying taskId subscriptionId (spawn shared delivery).1 delivery 0 := by
  obtain ⟨hsuccesses, hcounted, hroom⟩ := hconsistent.quiet hserial hactive
  have hattempts := attempts_spawn hof shared
  have hsettlements : settlements taskId subscriptionId (spawn shared delivery).1.history = _ :=
    settlements_spawn shared delivery
  have hsucceeded : successes taskId subscriptionId (spawn shared delivery).1.history = _ :=
    successes_spawn shared delivery
  refine ⟨⟨hconsistent.found, hconsistent.completion, ?_, ?_, ?_, ?_⟩,
    ⟨hconsistent.found, ?_, ?_, ?_⟩⟩
  all_goals omega

theorem successes_succeed (shared : Shared) : successes taskId subscriptionId
        (shared.record (.succeeded delivery.call.taskId delivery.sub.id)).history =
      successes taskId subscriptionId shared.history + 1 := by
  obtain ⟨rfl, rfl⟩ := hof
  rw [successes, Shared.record, List.count_append, List.count_singleton_self]
  rfl

theorem flying_succeed (hconsistent : Consistent taskId subscriptionId shared delivery.sub)
    (hflying : Flying taskId subscriptionId shared delivery 0) : Consistent taskId subscriptionId
        (shared.record (.succeeded delivery.call.taskId delivery.sub.id)) delivery.sub ∧
      Flying taskId subscriptionId
        (shared.record (.succeeded delivery.call.taskId delivery.sub.id)) delivery 1 := by
  have hsuccesses := successes_succeed hof shared
  have hattempts : attempts taskId subscriptionId
      (shared.record (.succeeded delivery.call.taskId delivery.sub.id)).history =
        attempts taskId subscriptionId shared.history := by
    rw [attempts, Shared.record, List.countP_append]
    rfl
  have hsettlements : settlements taskId subscriptionId
      (shared.record (.succeeded delivery.call.taskId delivery.sub.id)).history =
        settlements taskId subscriptionId shared.history := by
    unfold settlements
    apply count_record
    nofun
  have hbounded := hconsistent.bounded
  have hnone := hflying.successes
  have hunsettled := hflying.unsettled
  have hcounted := hflying.counted
  refine ⟨⟨hconsistent.found, hconsistent.completion, ?_, ?_, ?_, ?_⟩,
    ⟨hconsistent.found, ?_, ?_, ?_⟩⟩
  all_goals omega

theorem settlements_settle (shared : Shared) :
    settlements taskId subscriptionId (settle shared delivery).1.history =
      settlements taskId subscriptionId shared.history + 1 := by
  obtain ⟨rfl, rfl⟩ := hof
  show settlements _ _ (shared.history ++ [_]) = _
  rw [settlements, List.count_append, List.count_singleton_self]
  rfl

end

theorem attempts_settle (shared : Shared) (delivery : Delivery) :
    attempts taskId subscriptionId (settle shared delivery).1.history =
      attempts taskId subscriptionId shared.history := by
  show attempts _ _ (shared.history ++ [_]) = _
  rw [attempts, List.countP_append]
  rfl

theorem successes_settle (shared : Shared) (delivery : Delivery) :
    successes taskId subscriptionId (settle shared delivery).1.history =
      successes taskId subscriptionId shared.history := by
  unfold successes settle
  apply count_record
  nofun

theorem active_with (hsettles : Settles delivery fields succeeded)
    (hactive : (delivery.sub.with fields).status = .active) : succeeded = 0 ∧
      (delivery.sub.with fields).deliveryAttempts = delivery.sub.deliveryAttempts + 1 ∧
      delivery.sub.deliveryAttempts + 1 < MAX_DELIVERY_ATTEMPTS := by
  rcases hsettles with ⟨hdelivered, -⟩ | ⟨hnone, now, message, rfl⟩
  · rw [TaskSubscription.with, hdelivered] at hactive
    cases hactive
  · unfold failureFields at hactive ⊢
    by_cases hlast : MAX_DELIVERY_ATTEMPTS ≤ delivery.sub.deliveryAttempts + 1
    · simp only [hlast, ↓reduceIte] at hactive
      cases hactive
    · simp only [hlast, ↓reduceIte]
      exact ⟨hnone, rfl, Nat.lt_of_not_le hlast⟩

theorem consistent_write (hof : delivery.Of taskId subscriptionId)
    (hconsistent : Consistent taskId subscriptionId shared delivery.sub)
    (hflying : Flying taskId subscriptionId shared delivery succeeded)
    (hsettles : Settles delivery fields succeeded)
    (hfile : shared.subscriptions delivery.call.taskId = read) :
    Consistent taskId subscriptionId (settle (shared.write delivery fields read) delivery).1
      (delivery.sub.with fields) := by
  have hattempts : attempts taskId subscriptionId
      (settle (shared.write delivery fields read) delivery).1.history =
        attempts taskId subscriptionId shared.history := attempts_settle _ delivery
  have hsuccesses : successes taskId subscriptionId
      (settle (shared.write delivery fields read) delivery).1.history =
        successes taskId subscriptionId shared.history := successes_settle _ delivery
  have hsettlements : settlements taskId subscriptionId
      (settle (shared.write delivery fields read) delivery).1.history =
        settlements taskId subscriptionId shared.history + 1 := settlements_settle hof _
  have honce := hconsistent.once
  have hbounded := hconsistent.bounded
  have hcount := hflying.successes
  have hunsettled := hflying.unsettled
  have hcounted := hflying.counted
  refine ⟨?_, hconsistent.completion, ?_, ?_, ?_, ?_⟩
  · exact (find_write hfile hof).trans (by rw [hflying.found, Option.map_some])
  · omega
  · omega
  · omega
  · intro _ hactive
    obtain ⟨hnone, hattempted, hroom⟩ := active_with hsettles hactive
    rw [hattempted]
    omega

theorem Flying.entry_eq (hflying : Flying taskId subscriptionId shared delivery succeeded)
    (hconsistent : Consistent taskId subscriptionId shared entry) : entry = delivery.sub :=
  Option.some.inj (hconsistent.found.symm.trans hflying.found)

theorem entry_ne (hlists : delivery.call.Lists (delivery.sub :: delivery.rest))
    (hcompletion : delivery.sub.granularity = .completion) :
    delivery.call.entry ≠ .deliverAllGranularityCallbacks := by
  intro hentry
  have hall := (hlists delivery.sub List.mem_cons_self).2 hentry
  rw [hcompletion] at hall
  cases hall

theorem once_moves (hconsistent : Consistent taskId subscriptionId before entry)
    (hlists : process.Lists) (hknows : process.Knows taskId subscriptionId before)
    (hspawn : ∀ call task sub rest, process = .delivering call task (sub :: rest) →
      ∀ entry, findSubscription (before.subscriptions call.taskId) sub.id = some entry →
      entry.granularity = .completion → entry = sub ∧
      settlements call.taskId sub.id before.history = attempts call.taskId sub.id before.history)
    (hwrite : ∀ delivery fields read, process = .writing delivery fields read →
      before.subscriptions delivery.call.taskId = read)
    (hmoves : Moves answer before process moved) :
    (∃ entry, Consistent taskId subscriptionId moved.1 entry) ∧
      moved.2.Knows taskId subscriptionId moved.1 := by
  by_cases htargets : process.Targets taskId subscriptionId
  swap
  · obtain ⟨hunchanged, hother⟩ := unchanged_moves hmoves htargets hwrite
    exact ⟨⟨entry, hconsistent.congr hunchanged⟩, .of_other hother⟩
  cases hmoves with
  | stop => exact ⟨⟨entry, hconsistent⟩, trivial⟩
  | begin => exact htargets.elim
  | list => exact htargets.elim
  | skip => exact ⟨⟨entry, hconsistent⟩, trivial⟩
  | spawnCompletion =>
      rename_i call task sub rest
      obtain ⟨rfl, rfl⟩ := htargets
      obtain ⟨rfl, hserial⟩ :=
        hspawn call task sub rest rfl entry hconsistent.found hconsistent.completion
      have henv : Consistent call.taskId entry.id { before with env := some (task.depth + 1) }
          entry :=
        ⟨hconsistent.found, hconsistent.completion, hconsistent.once, hconsistent.bounded,
          hconsistent.settled, hconsistent.quiet⟩
      have hof : Delivery.Of call.taskId entry.id { call, task, sub := entry, rest } := ⟨rfl, rfl⟩
      obtain ⟨hafter, hflying⟩ :=
        flying_spawn hof henv (hlists entry List.mem_cons_self).1 hserial
      exact ⟨⟨entry, hafter⟩, fun _ => hflying⟩
  | spawnAll latest hall =>
      rename_i call task sub rest
      obtain ⟨rfl, rfl⟩ := htargets
      obtain ⟨rfl, -⟩ :=
        hspawn call task sub rest rfl entry hconsistent.found hconsistent.completion
      rw [hconsistent.completion] at hall
      cases hall
  | succeed delivery rescued =>
      have hflying := hknows htargets
      obtain rfl := hflying.entry_eq hconsistent
      obtain ⟨hafter, hsucceeded⟩ := flying_succeed htargets hconsistent hflying
      refine ⟨⟨_, hafter⟩, fun _ => ⟨1, hsucceeded, .inl ⟨?_, le_refl 1⟩⟩⟩
      unfold successFields
      split
      · rename_i hentry
        exact absurd hentry (entry_ne hlists hconsistent.completion)
      · rfl
  | fail message rescued =>
      exact ⟨⟨entry, hconsistent⟩, fun hof => ⟨0, hknows hof, .inr ⟨rfl, _, message, rfl⟩⟩⟩
  | abandon hall =>
      obtain rfl := (hknows htargets).entry_eq hconsistent
      rcases hall with hall | hentry
      · exact absurd hconsistent.completion hall
      · exact absurd hentry (entry_ne hlists hconsistent.completion)
  | read => exact ⟨⟨entry, hconsistent⟩, hknows⟩
  | miss hmissing hafter =>
      obtain ⟨succeeded, hflying, -⟩ := hknows htargets
      obtain ⟨rfl, rfl⟩ := htargets
      rw [hflying.found] at hmissing
      cases hmissing
  | write delivery fields read =>
      obtain ⟨succeeded, hflying, hsettles⟩ := hknows htargets
      obtain rfl := hflying.entry_eq hconsistent
      refine ⟨⟨_, consistent_write htargets hconsistent hflying hsettles
        (hwrite delivery fields read rfl)⟩, .of_other (not_of_none (delivery_settle _ _))⟩
  | leave => exact htargets.elim

theorem active_of_lists (hlists : process.Lists) (hdelivery : process.delivery = some delivery) :
    delivery.sub.status = .active := by
  cases process with
  | awaiting other =>
      obtain rfl := Option.some.inj hdelivery
      exact (hlists _ List.mem_cons_self).1
  | updating other fields rescued =>
      obtain rfl := Option.some.inj hdelivery
      exact (hlists _ List.mem_cons_self).1
  | writing other fields read =>
      obtain rfl := Option.some.inj hdelivery
      exact (hlists _ List.mem_cons_self).1
  | _ => cases hdelivery

theorem delivering_or_flying (htargets : process.Targets taskId subscriptionId) :
    (∃ call task sub rest, process = .delivering call task (sub :: rest)) ∨
      ∃ delivery, process.delivery = some delivery ∧ delivery.Of taskId subscriptionId := by
  cases process with
  | delivering call task subs =>
      cases subs with
      | nil => exact htargets.elim
      | cons sub rest => exact .inl ⟨call, task, sub, rest, rfl⟩
  | awaiting delivery => exact .inr ⟨delivery, rfl, htargets⟩
  | updating delivery fields rescued => exact .inr ⟨delivery, rfl, htargets⟩
  | writing delivery fields read => exact .inr ⟨delivery, rfl, htargets⟩
  | _ => exact htargets.elim

theorem Process.Knows.flying (hknows : process.Knows taskId subscriptionId shared)
    (hdelivery : process.delivery = some delivery) (hof : delivery.Of taskId subscriptionId) :
    ∃ succeeded, Flying taskId subscriptionId shared delivery succeeded := by
  cases process with
  | awaiting other =>
      obtain rfl := Option.some.inj hdelivery
      exact ⟨0, hknows hof⟩
  | updating other fields rescued =>
      obtain rfl := Option.some.inj hdelivery
      obtain ⟨succeeded, hflying, -⟩ := hknows hof
      exact ⟨succeeded, hflying⟩
  | writing other fields read =>
      obtain rfl := Option.some.inj hdelivery
      obtain ⟨succeeded, hflying, -⟩ := hknows hof
      exact ⟨succeeded, hflying⟩
  | _ => cases hdelivery

theorem preserves_once :
    Interleaving.Preserves advance Serial (once taskId subscriptionId) where
  symm := fun hapart delivery hp hof other hq hother => hapart other hq hother delivery hp hof
  own := by
    intro pool turn process after next hholds hserial hprocess hadvance
    obtain ⟨entry, hconsistent⟩ := hholds.global
    obtain ⟨hlists, hknows⟩ := hholds.waiting _ _ hprocess
    have hmoves := moves_advance hadvance
    have honce := once_moves hconsistent hlists hknows
      (fun call task sub rest h => hserial.spawn call task sub rest (h ▸ hprocess))
      (fun delivery fields read h => hserial.write delivery fields read (h ▸ hprocess)) hmoves
    exact ⟨honce.1, lists_moves hlists hmoves, honce.2⟩
  others := by
    intro pool turn process after next index other hholds hserial hprocess hadvance hindex hother
    have hmoves := moves_advance hadvance
    have hwrite : ∀ delivery fields read, process = .writing delivery fields read →
        pool.shared.subscriptions delivery.call.taskId = read :=
      fun delivery fields read h => hserial.write delivery fields read (h ▸ hprocess)
    obtain ⟨hlists, hknows⟩ := hholds.waiting _ _ hother
    by_cases hflight : ∃ delivery, other.delivery = some delivery ∧
        delivery.Of taskId subscriptionId
    · obtain ⟨delivery, hdelivery, hof⟩ := hflight
      have htargets : ¬process.Targets taskId subscriptionId := by
        intro htargets
        obtain ⟨succeeded, hflying⟩ := hknows.flying hdelivery hof
        rcases delivering_or_flying htargets with ⟨call, task, sub, rest, rfl⟩ | ⟨own, hown, hofown⟩
        · obtain ⟨entry, hconsistent⟩ := hholds.global
          obtain ⟨rfl, rfl⟩ := htargets
          obtain ⟨-, hsettled⟩ := hserial.spawn call task sub rest hprocess entry
            hconsistent.found hconsistent.completion
          have hunsettled := hflying.unsettled
          omega
        · exact hholds.apart _ _ _ _ hindex hprocess hother own hown hofown delivery hdelivery hof
      obtain ⟨hunchanged, hnext⟩ := unchanged_moves hmoves htargets hwrite
      exact ⟨⟨hlists, hknows.congr hunchanged⟩, fun d hd hofd => absurd hofd (hnext d hd)⟩
    · have hnot : ∀ delivery, other.delivery = some delivery →
          ¬delivery.Of taskId subscriptionId := fun delivery h hof => hflight ⟨delivery, h, hof⟩
      exact ⟨⟨hlists, .of_other hnot⟩, fun _ _ _ => hnot⟩

theorem unchanged_of_inactive {next : Pool Shared Process} {turn : Turn Answer}
    (hholds : (once taskId subscriptionId).Holds pool) (hserial : Serial pool turn)
    (hentry : findSubscription (pool.shared.subscriptions taskId) subscriptionId = some entry)
    (hinactive : entry.status ≠ .active) (hstep : Interleaving.step advance pool turn = some next) :
    Unchanged taskId subscriptionId pool.shared next.shared := by
  obtain ⟨process, shared, process', hprocess, hadvance, rfl⟩ :=
    Interleaving.step_eq_some.mp hstep
  obtain ⟨hlists, hknows⟩ := hholds.waiting _ _ hprocess
  have htargets : ¬process.Targets taskId subscriptionId := by
    intro htargets
    rcases delivering_or_flying htargets with ⟨call, task, sub, rest, rfl⟩ | ⟨own, hown, hof⟩
    · obtain ⟨other, hconsistent⟩ := hholds.global
      obtain rfl : other = entry := Option.some.inj (hconsistent.found.symm.trans hentry)
      obtain ⟨rfl, rfl⟩ := htargets
      obtain ⟨rfl, -⟩ := hserial.spawn call task sub rest hprocess other hentry
        hconsistent.completion
      exact hinactive (hlists other List.mem_cons_self).1
    · obtain ⟨succeeded, hflying⟩ := hknows.flying hown hof
      obtain rfl : own.sub = entry := Option.some.inj (hflying.found.symm.trans hentry)
      exact hinactive (active_of_lists hlists hown)
  exact (unchanged_moves (moves_advance hadvance) htargets fun delivery fields read h =>
    hserial.write delivery fields read (h ▸ hprocess)).1

theorem attempts_of_inactive {later : Pool Shared Process} {turns : List (Turn Answer)}
    (hholds : (once taskId subscriptionId).Holds pool)
    (hentry : findSubscription (pool.shared.subscriptions taskId) subscriptionId = some entry)
    (hinactive : entry.status ≠ .active)
    (hrun : Interleaving.Runs advance Serial pool turns later) :
    attempts taskId subscriptionId later.shared.history =
      attempts taskId subscriptionId pool.shared.history := by
  have hlater := hrun.invariant
    (fun s => (once taskId subscriptionId).Holds s ∧
      findSubscription (s.shared.subscriptions taskId) subscriptionId = some entry ∧
      attempts taskId subscriptionId s.shared.history =
        attempts taskId subscriptionId pool.shared.history)
    (fun s turn t hinv hserial hstep => by
      obtain ⟨hs, hfound, hattempts⟩ := hinv
      have hunchanged := unchanged_of_inactive hs hserial hfound hinactive hstep
      exact ⟨preserves_once.step hs hserial hstep, hunchanged.found.trans hfound,
        hunchanged.attempts.trans hattempts⟩)
    ⟨hholds, hentry, rfl⟩
  exact hlater.2.2

theorem once_begins {tasks : String → Option CallbackTask}
    {subscriptions : String → List TaskSubscription} (calls : List Call)
    (hsub : findSubscription (subscriptions taskId) subscriptionId = some entry)
    (hcompletion : entry.granularity = .completion) :
    (once taskId subscriptionId).Holds (begins tasks subscriptions calls) := by
  have hstarted : ∀ (index : Nat) (process : Process),
      (calls.map Process.started)[index]? = some process → ∃ call, process = .started call := by
    intro index process hprocess
    obtain ⟨call, -, rfl⟩ := List.mem_map.mp (List.mem_of_getElem? hprocess)
    exact ⟨call, rfl⟩
  refine ⟨⟨entry, hsub, hcompletion, ?_, ?_, ?_, ?_⟩, ?_, ?_⟩
  · exact Nat.zero_le 1
  · exact Nat.zero_le MAX_DELIVERY_ATTEMPTS
  · exact Nat.le_refl 0
  · exact fun _ _ => ⟨rfl, Nat.zero_le _, Nat.zero_lt_succ 2⟩
  · intro index process hprocess
    obtain ⟨call, rfl⟩ := hstarted index process hprocess
    exact ⟨trivial, trivial⟩
  · intro i j p q _ hp _ delivery hdelivery
    obtain ⟨call, rfl⟩ := hstarted i p hp
    cases hdelivery

/-- If the deliveries of a completion do not overlap, at most one of its spawns succeeds, at most
three are attempted, and none after the subscription is delivered or failed. -/
theorem completion_delivered_once {tasks : String → Option CallbackTask}
    {subscriptions : String → List TaskSubscription} {calls : List Call}
    {turns : List (Turn Answer)} {pool : Pool Shared Process} {sub : TaskSubscription}
    (hsub : findSubscription (subscriptions taskId) subscriptionId = some sub)
    (hcompletion : sub.granularity = .completion)
    (hrun : Interleaving.Runs advance Serial (begins tasks subscriptions calls) turns pool) :
    successes taskId subscriptionId pool.shared.history ≤ 1 ∧
      attempts taskId subscriptionId pool.shared.history ≤ MAX_DELIVERY_ATTEMPTS ∧
      ∀ entry more later,
        findSubscription (pool.shared.subscriptions taskId) subscriptionId = some entry →
        entry.status = .delivered ∨ entry.status = .failed →
        Interleaving.Runs advance Serial pool more later →
        attempts taskId subscriptionId later.shared.history =
          attempts taskId subscriptionId pool.shared.history := by
  have hholds := preserves_once.run hrun (once_begins calls hsub hcompletion)
  obtain ⟨last, hconsistent⟩ := hholds.global
  refine ⟨hconsistent.once, hconsistent.bounded, ?_⟩
  intro entry more later hentry hended hmore
  apply attempts_of_inactive hholds hentry _ hmore
  rcases hended with h | h <;> rw [h] <;> decide

end Once

def twoDeliveries : List Call := [⟨.deliverCallbacks, "A"⟩, ⟨.deliverCallbacks, "A"⟩]

/-- Both calls list the subscription before either spawns its session, and both succeed. -/
theorem delivered_twice : ∃ tasks subscriptions calls turns pool,
    StepSystem.FreeRun (Interleaving.step advance) (begins tasks subscriptions calls) turns pool ∧
      (∃ sub, findSubscription (subscriptions "A") "S" = some sub ∧ sub.granularity = .completion) ∧
      successes "A" "S" pool.shared.history = 2 := by
  have hexec : (StepSystem.exec (Interleaving.step advance)
      (begins (finishedAt 0) subscribed twoDeliveries)
      (List.replicate 2 ⟨0, {}⟩ ++ List.replicate 7 ⟨1, {}⟩ ++ List.replicate 5 ⟨0, {}⟩)).any
        (fun pool => successes "A" "S" pool.shared.history = 2) = true := by rfl
  obtain ⟨pool, hpool, htest⟩ := (Option.any_eq_true _ _).mp hexec
  exact ⟨_, _, _, _, pool, StepSystem.freeRun_iff_exec.mpr hpool, ⟨_, rfl, rfl⟩,
    of_decide_eq_true htest⟩

def serial (pool : Pool Shared Process) (turn : Turn Answer) : Bool :=
  match pool.processes[turn.index]? with
  | some (.delivering call _ (sub :: _)) =>
      findSubscription (pool.shared.subscriptions call.taskId) sub.id = some sub ∧
        settlements call.taskId sub.id pool.shared.history =
          attempts call.taskId sub.id pool.shared.history
  | some (.writing delivery _ read) =>
      pool.shared.subscriptions delivery.call.taskId = read
  | _ => true

theorem serial_of_test {pool : Pool Shared Process} {turn : Turn Answer}
    (htest : serial pool turn = true) : Serial pool turn := by
  constructor
  · intro call task sub rest hprocess entry hentry _
    rw [serial, hprocess] at htest
    obtain ⟨hcurrent, hsettled⟩ := of_decide_eq_true htest
    exact ⟨Option.some.inj (hentry.symm.trans hcurrent), hsettled⟩
  · intro delivery fields read hprocess
    rw [serial, hprocess] at htest
    exact of_decide_eq_true htest

/-- The first call fails, the second one delivers. -/
theorem delivered_after_failure : ∃ turns pool,
    Interleaving.Runs advance Serial (begins (finishedAt 0) subscribed twoDeliveries) turns pool ∧
      successes "A" "S" pool.shared.history ≤ 1 ∧ attempts "A" "S" pool.shared.history = 2 := by
  have hexec : (StepSystem.exec (StepSystem.checked (Interleaving.step advance) serial)
      (begins (finishedAt 0) subscribed twoDeliveries)
      (List.replicate 7 ⟨0, { spawn := .throws "offline" }⟩ ++ List.replicate 7 ⟨1, {}⟩)).any
        (fun pool => attempts "A" "S" pool.shared.history = 2) = true := by rfl
  obtain ⟨pool, hpool, htest⟩ := (Option.any_eq_true _ _).mp hexec
  have hrun : Interleaving.Runs advance Serial
      (begins (finishedAt 0) subscribed twoDeliveries) _ pool :=
    StepSystem.Run.of_exec (fun _ _ h => serial_of_test h) hpool
  have hsub : findSubscription (subscribed "A") "S" =
      some { id := "S", subscriberId := "swe", granularity := .completion } := rfl
  have honce := completion_delivered_once hsub rfl hrun
  exact ⟨_, pool, hrun, honce.1, of_decide_eq_true htest⟩

end Aof.CallbackDelivery
