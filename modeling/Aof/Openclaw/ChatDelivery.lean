import Aof.Lib.Interleaving
import Aof.Store.SubscriptionStore

/-!
# Chat delivery

The calls of `openclaw/openclaw-chat-delivery.ts` as processes that wait at their awaits.  The
clock, the task store and the message tool answer to a turn.  The message is left out.
-/

/-!
## The queue of chat deliveries

The queue of `ipc/chat-delivery-queue.ts`, from which the plugin takes requests and to which it
posts their results.  Each call runs to its end without waiting, and so does a timer that fires.
The ids of the requests come from `randomUUID`.
-/

namespace Aof

structure ChatDeliveryRequest where
  id : String
  subscriptionId : String
  taskId : String
  toStatus : String
  message : String
  delivery : JsObject
  deriving Repr

structure ChatDeliveryError where
  kind : Option String := none
  message : String
  deriving DecidableEq, Repr

structure ChatDeliveryResultPost where
  success : Bool
  error : Option ChatDeliveryError := none
  deriving DecidableEq, Repr

/-- How the promise of a request is settled; a timeout is of the kind `timeout`, and its message
names the bound. -/
inductive DeliveryOutcome where
  | resolved
  | rejected (error : ChatDeliveryError)
  | timedOut (timeoutMs : JsNumber)
  deriving DecidableEq

/-- What has happened to the requests, by their ids.  The program keeps no such record. -/
inductive DeliveryRecord where
  | queued (id : String)
  | claimed (id : String)
  | taken (id : String)
  | settled (id : String) (outcome : DeliveryOutcome)
  deriving DecidableEq

/-- A waiter knows the timer that it clears. -/
structure Waiter where
  timer : Option JsNumber
  deriving DecidableEq

structure ChatDeliveryQueue where
  pending : Dict String ChatDeliveryRequest := .empty
  claimed : List String := []
  waiters : Dict String Waiter := .empty
  timers : Dict String JsNumber := .empty
  history : List DeliveryRecord := []

namespace ChatDeliveryQueue

def DEFAULT_TIMEOUT_MS : JsNumber := .finite 60000

def record (queue : ChatDeliveryQueue) (entry : DeliveryRecord) : ChatDeliveryQueue :=
  { queue with history := queue.history ++ [entry] }

def armedTimeout (timeoutMs : Option JsNumber) : Option JsNumber :=
  (some (timeoutMs.getD DEFAULT_TIMEOUT_MS)).filter fun bound =>
    bound.isFinite && JsNumber.less (.finite 0) bound

def arm (timers : Dict String JsNumber) (id : String) (timer : Option JsNumber) :
    Dict String JsNumber :=
  match timer with
  | some bound => timers.set id bound
  | none => timers

def enqueueAndAwait (queue : ChatDeliveryQueue) (request : ChatDeliveryRequest)
    (timeoutMs : Option JsNumber) : ChatDeliveryQueue :=
  let timer := armedTimeout timeoutMs
  { queue with
    pending := queue.pending.set request.id request
    timers := arm queue.timers request.id timer
    waiters := queue.waiters.set request.id ⟨timer⟩ }.record (.queued request.id)

def take (queue : ChatDeliveryQueue) (id : String) : ChatDeliveryQueue :=
  { queue with
    claimed := id :: queue.claimed
    pending := queue.pending.erase id }

def claim (queue : ChatDeliveryQueue) : Option ChatDeliveryRequest × ChatDeliveryQueue :=
  match queue.pending.entries.find? fun entry => entry.1 ∉ queue.claimed with
  | some (id, request) => (some request, (queue.take id).record (.claimed id))
  | none => (none, queue)

def tryClaim (queue : ChatDeliveryQueue) (id : String) : Bool × ChatDeliveryQueue :=
  if queue.pending.has id then (true, (queue.take id).record (.taken id)) else (false, queue)

def settle (queue : ChatDeliveryQueue) (id : String) (outcome : DeliveryOutcome) :
    ChatDeliveryQueue :=
  { queue with
    waiters := queue.waiters.erase id
    claimed := queue.claimed.filter (· ≠ id) }.record (.settled id outcome)

def timeout (queue : ChatDeliveryQueue) (id : String) (bound : JsNumber) : ChatDeliveryQueue :=
  let fired := { queue with timers := queue.timers.erase id }
  if fired.waiters.has id then
    { fired with pending := fired.pending.erase id }.settle id (.timedOut bound)
  else fired

def outcomeOf (result : ChatDeliveryResultPost) : DeliveryOutcome :=
  if result.success then .resolved
  else
    .rejected {
      kind := result.error.bind ChatDeliveryError.kind
      message := (result.error.map ChatDeliveryError.message).getD
        "plugin reported delivery failure" }

/-- A waiter clears its timer before it settles the promise. -/
def deliverResult (queue : ChatDeliveryQueue) (id : String) (result : ChatDeliveryResultPost) :
    ChatDeliveryQueue :=
  match queue.waiters.get? id with
  | none => queue
  | some waiter =>
      { queue with
        timers := if waiter.timer.isSome then queue.timers.erase id else queue.timers }.settle id
        (outcomeOf result)

end ChatDeliveryQueue

def DeliveryRecord.id : DeliveryRecord → String
  | queued id | claimed id | taken id | settled id _ => id

inductive DeliveryEvent where
  | enqueueAndAwait (request : ChatDeliveryRequest) (timeoutMs : Option JsNumber)
  | claim
  | tryClaim (id : String)
  | timeout (id : String)
  | deliverResult (id : String) (result : ChatDeliveryResultPost)

/-- One event: a request gets an id that has not been seen, and only a timer that is set fires. -/
def deliveryStep (queue : ChatDeliveryQueue) : DeliveryEvent → Option ChatDeliveryQueue
  | .enqueueAndAwait request timeoutMs =>
      if request.id ∈ queue.history.map DeliveryRecord.id then none
      else some (queue.enqueueAndAwait request timeoutMs)
  | .claim => some queue.claim.2
  | .tryClaim id => some (queue.tryClaim id).2
  | .timeout id => (queue.timers.get? id).map (queue.timeout id)
  | .deliverResult id result => some (queue.deliverResult id result)

end Aof

namespace Aof

namespace ChatDelivery

def OPENCLAW_CHAT_DELIVERY_KIND : String := "openclaw-chat"

def TRIGGER_STATUSES : List String := ["blocked", "review", "done", "cancelled", "deadletter"]

def TERMINAL_STATUSES : List String := ["done", "cancelled", "deadletter"]

structure BaseEvent where
  type : String
  taskId : Option String := none
  toStatus : Option String := none
  deriving DecidableEq, Repr

def route (sub : StoredSubscription) : Option String :=
  truthy ((sub.chat.target.or sub.chat.sessionKey).or sub.chat.sessionId)

def candidates (file : SubscriptionsFile) (toStatus : String) : List StoredSubscription :=
  file.filter fun sub =>
    sub.status = .active && resolveDeliveryKind sub.toTaskSubscription = OPENCLAW_CHAT_DELIVERY_KIND
      && !sub.notifiedStatuses.contains toStatus

structure Notification where
  taskId : String
  subscriptionId : String
  toStatus : String
  deriving DecidableEq, Repr

/-- The subscriptions files, and the messages that were sent.  The program keeps no such record. -/
structure Shared where
  files : String → SubscriptionsFile
  sent : List Notification := []

/-- What a call still has to visit: tasks with the status that it tells, and statuses whose tasks it
has not listed. -/
structure Agenda where
  tasks : List (String × String) := []
  statuses : List String := []
  deriving DecidableEq, Repr

structure Delivery where
  taskId : String
  toStatus : String
  sub : StoredSubscription
  attemptedAt : Nat
  rest : List StoredSubscription
  agenda : Agenda
  deriving DecidableEq, Repr

def Delivery.notification (delivery : Delivery) : Notification :=
  ⟨delivery.taskId, delivery.sub.id, delivery.toStatus⟩

/-- The updates of a delivery, after its message was sent or was not. -/
inductive Stage where
  | attempt
  | mark
  | deliver
  | failed (error : AttemptError)
  deriving DecidableEq, Repr

/-- A delivery without a platform is recorded as one to an agent. -/
def failedAttempt (error : AttemptError) : AttemptError :=
  if error.kind = some "no-platform" then
    { kind := some "agent-callback-fallback"
      message := "agent-callback fallback (wake-up observably lost): " ++ error.message }
  else error

def Delivery.call (delivery : Delivery) (stage : Stage) (now : Nat) : SubscriptionCall :=
  match stage with
  | .attempt => .appendAttempt delivery.sub.id
      { attemptedAt := delivery.attemptedAt, success := true, toStatus := some delivery.toStatus }
      now
  | .mark => .markStatusNotified delivery.sub.id delivery.toStatus now
  | .deliver => .update delivery.sub.id
      { status := some .delivered, deliveredAt := some now } now
  | .failed error => .appendAttempt delivery.sub.id
      { attemptedAt := delivery.attemptedAt
        success := false
        toStatus := some delivery.toStatus
        error := some (failedAttempt error) } now

/-- Where a call waits: for the task of its event, for a list, before the next subscription, for the
message tool, for the read and for the write of an update. -/
inductive Process where
  | resolving (taskId toStatus : String)
  | visiting (agenda : Agenda)
  | delivering (taskId toStatus : String) (subs : List StoredSubscription) (agenda : Agenda)
  | sending (delivery : Delivery)
  | reading (delivery : Delivery) (stage : Stage)
  | writing (delivery : Delivery) (stage : Stage) (read next : SubscriptionsFile)
  | finished
  deriving DecidableEq, Repr

def handleEvent (event : BaseEvent) : Process :=
  match truthy event.taskId, truthy event.toStatus with
  | some taskId, some toStatus =>
      if event.type = "task.transitioned" ∧ TRIGGER_STATUSES.contains toStatus then
        .resolving taskId toStatus
      else .finished
  | _, _ => .finished

def replayUnnotifiedTerminals : Process := .visiting { statuses := TERMINAL_STATUSES }

inductive SendAnswer where
  | success
  | throws (error : AttemptError)
  deriving DecidableEq, Repr

/-- What a turn may read: the clock, whether the task is found, the tasks that are listed with their
statuses, and whether the message was sent.  A list that fails is an empty one. -/
structure Answer where
  now : Nat := 0
  found : Bool := true
  tasks : List (String × String) := []
  send : SendAnswer := .success
  deriving DecidableEq, Repr

def Delivery.done (delivery : Delivery) : Process :=
  .delivering delivery.taskId delivery.toStatus delivery.rest delivery.agenda

/-- What follows when an update has been made, or had nothing to make. -/
def Delivery.after (delivery : Delivery) : Stage → Process
  | .attempt => .reading delivery .mark
  | .mark =>
      if TERMINAL_STATUSES.contains delivery.toStatus then .reading delivery .deliver
      else delivery.done
  | .deliver | .failed _ => delivery.done

/-- What follows when no entry was found or changed.  Only `update` throws. -/
def Delivery.unchanged (delivery : Delivery) : Stage → Process
  | .deliver => .reading delivery (.failed
      { message := "Subscription " ++ delivery.sub.id ++ " not found for task " ++
          delivery.taskId })
  | stage => delivery.after stage

def advance (answer : Answer) (shared : Shared) : Process → Option (Shared × Process)
  | .resolving taskId toStatus =>
      some (shared, if answer.found then .visiting { tasks := [(taskId, toStatus)] } else .finished)
  | .visiting ⟨(taskId, toStatus) :: tasks, statuses⟩ =>
      some (shared, .delivering taskId toStatus (candidates (shared.files taskId) toStatus)
        ⟨tasks, statuses⟩)
  | .visiting ⟨[], _ :: statuses⟩ =>
      some (shared, .visiting
        ⟨answer.tasks.filter fun task => TERMINAL_STATUSES.contains task.2, statuses⟩)
  | .visiting ⟨[], []⟩ => some (shared, .finished)
  | .delivering _ _ [] agenda => some (shared, .visiting agenda)
  | .delivering taskId toStatus (sub :: rest) agenda =>
      match route sub with
      | none => some (shared, .delivering taskId toStatus rest agenda)
      | some _ =>
          let attemptedAt := answer.now
          some (shared, .sending { taskId, toStatus, sub, attemptedAt, rest, agenda })
  | .sending delivery =>
      match answer.send with
      | .success =>
          some ({ shared with sent := shared.sent ++ [delivery.notification] },
            .reading delivery .attempt)
      | .throws error => some (shared, .reading delivery (.failed error))
  | .reading delivery stage =>
      let read := shared.files delivery.taskId
      match (delivery.call stage answer.now).edit read with
      | some next => some (shared, .writing delivery stage read next)
      | none => some (shared, delivery.unchanged stage)
  | .writing delivery stage _ next =>
      some ({ shared with files := Function.update shared.files delivery.taskId next },
        delivery.after stage)
  | .finished => none

end ChatDelivery

end Aof
