import Aof.Lib.Cursor
import Aof.Openclaw.ChatDelivery

/-!
# Callback delivery

The calls of `dispatch/callback-delivery.ts` as processes that wait at their awaits.  The clock, the
event log and the executor answer to a turn.  Prompts and traces are left out.
-/

namespace Aof

def MAX_DELIVERY_ATTEMPTS : Nat := 3

def MIN_RETRY_INTERVAL_MS : Nat := 30000

def MAX_CALLBACK_DEPTH : Nat := 3

namespace CallbackDelivery

structure CallbackTask where
  status : TaskStatus
  callbackDepth : Option Nat := none
  deriving DecidableEq, Repr

def CallbackTask.depth (task : CallbackTask) : Nat := task.callbackDepth.getD 0

def CallbackTask.terminal (task : CallbackTask) : Bool :=
  task.status = .done ∨ task.status = .cancelled ∨ task.status = .deadletter

inductive EntryPoint where
  | deliverCallbacks
  | deliverAllGranularityCallbacks
  | retryPendingDeliveries
  deriving DecidableEq, Repr

structure Call where
  entry : EntryPoint
  taskId : String
  deriving DecidableEq, Repr

/-- The checks before the subscriptions are listed; the retry makes none of the depth. -/
def Call.admits (call : Call) (task : CallbackTask) : Bool :=
  match call.entry with
  | .deliverCallbacks => task.terminal ∧ task.depth < MAX_CALLBACK_DEPTH
  | .deliverAllGranularityCallbacks => task.depth < MAX_CALLBACK_DEPTH
  | .retryPendingDeliveries => task.terminal

def Call.selects (call : Call) (now : Nat) (sub : TaskSubscription) : Bool :=
  match call.entry with
  | .deliverCallbacks => sub.granularity = .completion
  | .deliverAllGranularityCallbacks => sub.granularity = .all
  | .retryPendingDeliveries =>
      sub.deliveryAttempts < MAX_DELIVERY_ATTEMPTS ∧
        sub.lastAttemptAt.all fun attemptedAt => attemptedAt + MIN_RETRY_INTERVAL_MS ≤ now

def Call.candidates (call : Call) (now : Nat) (subscriptions : List TaskSubscription) :
    List TaskSubscription :=
  subscriptions.filter fun sub =>
    sub.status = .active && resolveDeliveryKind sub = "agent-callback" && call.selects now sub

structure Session where
  taskId : String
  subscriptionId : String
  agent : String
  callbackDepth : Nat
  env : Option Nat
  deriving DecidableEq, Repr

/-- What has happened to the subscriptions: a session was spawned, its spawn succeeded, and the call
was done with its outcome.  The program keeps no such record. -/
inductive Event where
  | spawned (session : Session)
  | succeeded (taskId subscriptionId : String)
  | settled (taskId subscriptionId : String)
  deriving DecidableEq, Repr

/-- The tasks, the subscription files, the variable `AOF_CALLBACK_DEPTH` and the record. -/
structure Shared where
  tasks : String → Option CallbackTask
  subscriptions : String → List TaskSubscription
  env : Option Nat := none
  history : List Event := []

def Shared.record (shared : Shared) (event : Event) : Shared :=
  { shared with history := shared.history ++ [event] }

/-- A delivery in flight; the time of the last transition comes with one of granularity `all`. -/
structure Delivery where
  call : Call
  task : CallbackTask
  sub : TaskSubscription
  rest : List TaskSubscription
  latest : Option Nat := none

/-- Where a call waits: for its task, for the list, before the next subscription, for the session,
for the read and for the write of an update, before the variable is deleted.  Within the `try` block
of `deliverSingleCallback`, an update that throws is followed by the update of a failure. -/
inductive Process where
  | started (call : Call)
  | listing (call : Call) (task : CallbackTask)
  | delivering (call : Call) (task : CallbackTask) (subs : List TaskSubscription)
  | awaiting (delivery : Delivery)
  | updating (delivery : Delivery) (fields : SubscriptionFields) (rescued : Bool)
  | writing (delivery : Delivery) (fields : SubscriptionFields) (read : List TaskSubscription)
  | leaving (call : Call) (task : CallbackTask) (rest : List TaskSubscription)
  | finished

def Process.delivery : Process → Option Delivery
  | .awaiting delivery | .updating delivery _ _ | .writing delivery _ _ => some delivery
  | _ => none

inductive SpawnAnswer where
  | success
  | failure (error : Option String)
  | throws (message : String)
  deriving DecidableEq, Repr

/-- What a turn may read: the clock, the times of the task's transitions, and the session. -/
structure Answer where
  now : Nat := 0
  transitions : List Nat := []
  spawn : SpawnAnswer := .success
  deriving DecidableEq, Repr

def successFields (delivery : Delivery) (now : Nat) : SubscriptionFields :=
  match delivery.call.entry, delivery.latest with
  | .deliverAllGranularityCallbacks, latest => { lastDeliveredAt := latest }
  | _, latest =>
      { status := some .delivered, deliveredAt := some now, lastDeliveredAt := latest }

def failureFields (sub : TaskSubscription) (now : Nat) (errorMessage : String) :
    SubscriptionFields :=
  let newAttempts := sub.deliveryAttempts + 1
  if MAX_DELIVERY_ATTEMPTS ≤ newAttempts then
    { status := some .failed
      failureReason := some ("Delivery failed after " ++ toString newAttempts ++ " attempts: " ++
        errorMessage)
      deliveryAttempts := some newAttempts
      lastAttemptAt := some now }
  else { deliveryAttempts := some newAttempts, lastAttemptAt := some now }

def latestTransition (sub : TaskSubscription) (transitions : List Nat) : Option Nat :=
  (transitions.filter fun time => sub.lastDeliveredAt.getD 0 < time).max?

def spawn (shared : Shared) (delivery : Delivery) : Shared × Process :=
  (shared.record (.spawned
    { taskId := delivery.call.taskId
      subscriptionId := delivery.sub.id
      agent := delivery.sub.subscriberId
      callbackDepth := delivery.task.depth + 1
      env := shared.env }), .awaiting delivery)

def Shared.write (shared : Shared) (delivery : Delivery) (fields : SubscriptionFields)
    (read : List TaskSubscription) : Shared :=
  { shared with
    subscriptions := Function.update shared.subscriptions delivery.call.taskId
      (updateSubscription read delivery.sub.id fields) }

/-- The call is done with a delivery; the one of a completion goes through its `finally` block. -/
def settle (shared : Shared) (delivery : Delivery) : Shared × Process :=
  (shared.record (.settled delivery.call.taskId delivery.sub.id),
    match delivery.sub.granularity with
    | .completion => .leaving delivery.call delivery.task delivery.rest
    | .all => .delivering delivery.call delivery.task delivery.rest)

def answered (answer : Answer) (shared : Shared) (delivery : Delivery) : Shared × Process :=
  let inTry : Bool := delivery.sub.granularity = .completion
  match answer.spawn with
  | .success =>
      (shared.record (.succeeded delivery.call.taskId delivery.sub.id),
        .updating delivery (successFields delivery answer.now) inTry)
  | .failure error =>
      if delivery.call.entry = .deliverAllGranularityCallbacks then settle shared delivery
      else
        (shared, .updating delivery
          (failureFields delivery.sub answer.now ((truthy error).getD "spawn failed")) inTry)
  | .throws message =>
      if inTry then
        (shared, .updating delivery (failureFields delivery.sub answer.now message) false)
      else settle shared delivery

def advance (answer : Answer) (shared : Shared) : Process → Option (Shared × Process)
  | .started call =>
      match shared.tasks call.taskId with
      | none => some (shared, .finished)
      | some task => some (shared, if call.admits task then .listing call task else .finished)
  | .listing call task =>
      some (shared, .delivering call task
        (call.candidates answer.now (shared.subscriptions call.taskId)))
  | .delivering _ _ [] => some (shared, .finished)
  | .delivering call task (sub :: rest) =>
      match sub.granularity with
      | .completion =>
          some (spawn { shared with env := some (task.depth + 1) } { call, task, sub, rest })
      | .all =>
          match latestTransition sub answer.transitions with
          | none => some (shared, .delivering call task rest)
          | some latest => some (spawn shared { call, task, sub, rest, latest := some latest })
  | .awaiting delivery => some (answered answer shared delivery)
  | .updating delivery fields rescued =>
      let read := shared.subscriptions delivery.call.taskId
      match findSubscription read delivery.sub.id with
      | some _ => some (shared, .writing delivery fields read)
      | none =>
          if rescued then
            some (shared, .updating delivery
              (failureFields delivery.sub answer.now ("Subscription " ++ delivery.sub.id ++
                " not found for task " ++ delivery.call.taskId)) false)
          else some (settle shared delivery)
  | .writing delivery fields read =>
      some (settle (shared.write delivery fields read) delivery)
  | .leaving call task rest => some ({ shared with env := none }, .delivering call task rest)
  | .finished => none

end CallbackDelivery

end Aof

/-!
## Deliveries of transitions

The calls of `dispatch/callback-delivery.ts`, one after the other, over the event log that they
query.  Events are appended and tasks change at any time, also while a call waits.
-/

namespace Aof.CallbackDelivery

structure LoggedTransition where
  fromStatus : String
  toStatus : String
  timestamp : Nat
  deriving DecidableEq, Repr

/-- The events after `lastDeliveredAt`, sorted by their times, with their positions in the log. -/
def newEvents (sub : TaskSubscription) (log : List LoggedTransition) :
    List (LoggedTransition × Nat) :=
  Cursor.unread LoggedTransition.timestamp log (sub.lastDeliveredAt.getD 0)

structure Batch where
  taskId : String
  subscriptionId : String
  events : List (LoggedTransition × Nat)
  deriving DecidableEq, Repr

/-- The tasks and files, the call that runs, and the log of each task.  The batch of the delivery in
flight and the batches whose sessions were started are a record that the program does not keep. -/
structure Deliveries where
  shared : Shared
  process : Process := .finished
  log : String → List LoggedTransition
  reading : List (LoggedTransition × Nat) := []
  batches : List Batch := []

inductive Move where
  | call (call : Call)
  | append (taskId : String) (event : LoggedTransition)
  | change (tasks : String → Option CallbackTask)
  | turn (now : Nat) (spawn : SpawnAnswer)

namespace Deliveries

variable (state : Deliveries)

/-- What a turn reads: the query is made in the turn in which the session is spawned. -/
def answer (now : Nat) (spawn : SpawnAnswer) : Answer where
  now := now
  spawn := spawn
  transitions :=
    match state.process with
    | .delivering call _ _ => (state.log call.taskId).map LoggedTransition.timestamp
    | _ => []

def nextReading : List (LoggedTransition × Nat) :=
  match state.process with
  | .delivering call _ (sub :: _) => newEvents sub (state.log call.taskId)
  | _ => state.reading

def nextBatches (spawn : SpawnAnswer) : List Batch :=
  match state.process, spawn with
  | .awaiting delivery, .success =>
      if delivery.sub.granularity = .all then
        state.batches ++ [⟨delivery.call.taskId, delivery.sub.id, state.reading⟩]
      else state.batches
  | _, _ => state.batches

def step (state : Deliveries) : Move → Option Deliveries
  | .call call =>
      match state.process with
      | .finished => some { state with process := .started call }
      | _ => none
  | .append taskId event => some
      { state with log := Function.update state.log taskId (state.log taskId ++ [event]) }
  | .change tasks => some { state with shared := { state.shared with tasks } }
  | .turn now spawn =>
      (advance (state.answer now spawn) state.shared state.process).map fun after =>
        { state with
          shared := after.1
          process := after.2
          reading := state.nextReading
          batches := state.nextBatches spawn }

def batchesOf (taskId subscriptionId : String) : List (List (LoggedTransition × Nat)) :=
  (state.batches.filter fun batch =>
    batch.taskId = taskId ∧ batch.subscriptionId = subscriptionId).map Batch.events

end Deliveries

end Aof.CallbackDelivery

/-!
## All the writers of the subscriptions files

The calls of the store, the callback deliveries and the chat deliveries as processes over the same
files.  The callback deliveries read some fields of the entries only; here their updates are made on
the whole entries.
-/

namespace Aof.SubscriptionActivity

structure Shared where
  files : String → SubscriptionsFile
  tasks : String → Option CallbackDelivery.CallbackTask
  env : Option Nat := none
  history : List CallbackDelivery.Event := []
  sent : List ChatDelivery.Notification := []

def Shared.callbacks (shared : Shared) : CallbackDelivery.Shared where
  tasks := shared.tasks
  subscriptions taskId := (shared.files taskId).map StoredSubscription.toTaskSubscription
  env := shared.env
  history := shared.history

def Shared.chats (shared : Shared) : ChatDelivery.Shared := ⟨shared.files, shared.sent⟩

inductive StoreCall where
  | reading (taskId : String) (call : SubscriptionCall)
  | writing (taskId : String) (next : SubscriptionsFile)
  | finished

structure Callback where
  process : CallbackDelivery.Process
  next : SubscriptionsFile := []

inductive Process where
  | store (call : StoreCall)
  | callback (callback : Callback)
  | chat (process : ChatDelivery.Process)

structure Answer where
  callback : CallbackDelivery.Answer := {}
  chat : ChatDelivery.Answer := {}

def Shared.put (shared : Shared) (taskId : String) (file : SubscriptionsFile) : Shared :=
  { shared with files := Function.update shared.files taskId file }

def advanceStore (shared : Shared) : StoreCall → Option (Shared × StoreCall)
  | .reading taskId call =>
      match call.edit (shared.files taskId) with
      | some next => some (shared, .writing taskId next)
      | none => some (shared, .finished)
  | .writing taskId next => some (shared.put taskId next, .finished)
  | .finished => none

def Callback.update (callback : Callback) : Option (CallbackDelivery.Delivery × StoredFields) :=
  match callback.process with
  | .updating delivery fields _ => some (delivery, { toSubscriptionFields := fields })
  | _ => none

def Callback.writes (callback : Callback) : Option CallbackDelivery.Delivery :=
  match callback.process with
  | .writing delivery _ _ => some delivery
  | _ => none

def Callback.edited (callback : Callback) (shared : Shared) (now : Nat) : SubscriptionsFile :=
  match callback.update with
  | some (delivery, fields) =>
      ((shared.files delivery.call.taskId).update delivery.sub.id fields now).getD callback.next
  | none => callback.next

def Callback.files (callback : Callback) (shared : Shared) : String → SubscriptionsFile :=
  match callback.writes with
  | some delivery => Function.update shared.files delivery.call.taskId callback.next
  | none => shared.files

def advanceCallback (answer : CallbackDelivery.Answer) (shared : Shared) (callback : Callback) :
    Option (Shared × Callback) :=
  (CallbackDelivery.advance answer shared.callbacks callback.process).map fun result =>
    ({ shared with
        files := callback.files shared
        tasks := result.1.tasks
        env := result.1.env
        history := result.1.history },
      { process := result.2
        next := callback.edited shared answer.now })

def advanceChat (answer : ChatDelivery.Answer) (shared : Shared) (process : ChatDelivery.Process) :
    Option (Shared × ChatDelivery.Process) :=
  (ChatDelivery.advance answer shared.chats process).map fun result =>
    ({ shared with
        files := result.1.files
        sent := result.1.sent }, result.2)

def advance (answer : Answer) (shared : Shared) : Process → Option (Shared × Process)
  | .store call => (advanceStore shared call).map fun result => (result.1, .store result.2)
  | .callback callback =>
      (advanceCallback answer.callback shared callback).map fun result =>
        (result.1, .callback result.2)
  | .chat process =>
      (advanceChat answer.chat shared process).map fun result => (result.1, .chat result.2)

inductive Call where
  | store (taskId : String) (call : SubscriptionCall)
  | callback (call : CallbackDelivery.Call)
  | handleEvent (event : ChatDelivery.BaseEvent)
  | replayUnnotifiedTerminals

def Call.start : Call → Process
  | .store taskId call => .store (.reading taskId call)
  | .callback call => .callback { process := .started call }
  | .handleEvent event => .chat (ChatDelivery.handleEvent event)
  | .replayUnnotifiedTerminals => .chat ChatDelivery.replayUnnotifiedTerminals

def begins (tasks : String → Option CallbackDelivery.CallbackTask)
    (files : String → SubscriptionsFile) (calls : List Call) : Interleaving.Pool Shared Process :=
  ⟨{ files, tasks }, calls.map Call.start⟩

end Aof.SubscriptionActivity
