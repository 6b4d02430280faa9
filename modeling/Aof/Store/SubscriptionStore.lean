import Aof.Dispatch.TaskDispatcher
import Aof.Lib.ReadModifyWrite

/-!
# Subscriptions

The subscriptions to a task, with the delivery-related fields of `schemas/subscription.ts`, and the
change that `store/subscription-store.ts` makes to its file.  Times are milliseconds.
-/

namespace Aof

inductive SubscriptionGranularity where
  | completion
  | all
  deriving DecidableEq, Repr

inductive SubscriptionStatus where
  | active
  | delivered
  | failed
  | cancelled
  deriving DecidableEq, Repr

structure TaskSubscription where
  id : String
  subscriberId : String
  granularity : SubscriptionGranularity
  deliveryKind : Option String := none
  status : SubscriptionStatus := .active
  deliveredAt : Option Nat := none
  failureReason : Option String := none
  deliveryAttempts : Nat := 0
  lastAttemptAt : Option Nat := none
  lastDeliveredAt : Option Nat := none
  deriving DecidableEq, Repr

def resolveDeliveryKind (sub : TaskSubscription) : String :=
  sub.deliveryKind.getD "agent-callback"

structure SubscriptionFields where
  status : Option SubscriptionStatus := none
  deliveredAt : Option Nat := none
  failureReason : Option String := none
  deliveryAttempts : Option Nat := none
  lastAttemptAt : Option Nat := none
  lastDeliveredAt : Option Nat := none
  deriving DecidableEq, Repr

def TaskSubscription.with (sub : TaskSubscription) (fields : SubscriptionFields) :
    TaskSubscription :=
  { sub with
    status := fields.status.getD sub.status
    deliveredAt := fields.deliveredAt.or sub.deliveredAt
    failureReason := fields.failureReason.or sub.failureReason
    deliveryAttempts := fields.deliveryAttempts.getD sub.deliveryAttempts
    lastAttemptAt := fields.lastAttemptAt.or sub.lastAttemptAt
    lastDeliveredAt := fields.lastDeliveredAt.or sub.lastDeliveredAt }

def findSubscription (subscriptions : List TaskSubscription) (subscriptionId : String) :
    Option TaskSubscription :=
  subscriptions.find? fun sub => sub.id = subscriptionId

/-- The file after `update`: the first entry with the id gets the fields. -/
def updateSubscription (subscriptions : List TaskSubscription) (subscriptionId : String)
    (fields : SubscriptionFields) : List TaskSubscription :=
  match subscriptions with
  | [] => []
  | sub :: rest =>
      if sub.id = subscriptionId then sub.with fields :: rest
      else sub :: updateSubscription rest subscriptionId fields

theorem findSubscription_update (subscriptions : List TaskSubscription)
    (subscriptionId other : String) (fields : SubscriptionFields) :
    findSubscription (updateSubscription subscriptions subscriptionId fields) other =
      if other = subscriptionId then
        (findSubscription subscriptions other).map fun sub => sub.with fields
      else findSubscription subscriptions other := by
  induction subscriptions with
  | nil => simp [findSubscription, updateSubscription]
  | cons sub rest ih =>
      unfold findSubscription at ih ⊢
      unfold updateSubscription
      by_cases hid : sub.id = subscriptionId
      · by_cases hother : other = subscriptionId
        · simp [hid, hother, TaskSubscription.with]
        · simp [hid, hother, TaskSubscription.with, Ne.symm hother]
      · by_cases hsame : sub.id = other
        · have hother : ¬other = subscriptionId := fun h => hid (hsame.trans h)
          simp [hsame, hother]
        · simp only [hid, ↓reduceIte, List.find?_cons, hsame, decide_false]
          exact ih

end Aof

/-!
## The subscriptions file

The calls of `SubscriptionStore` that change the file of a task, on the whole entries of
`schemas/subscription.ts`.  Each reads the file, edits it and writes it back; a file that does not
exist is an empty one.
-/

namespace Aof

structure AttemptError where
  kind : Option String := none
  message : String
  deriving DecidableEq, Repr

structure TaskSubscriptionAttempt where
  attemptedAt : Nat
  success : Bool
  toStatus : Option String := none
  error : Option AttemptError := none
  deriving DecidableEq, Repr

/-- The routes of a chat delivery. -/
structure OpenClawChatDelivery where
  target : Option String := none
  sessionKey : Option String := none
  sessionId : Option String := none
  deriving DecidableEq, Repr

/-- An entry of the file, with what the deliveries of other modules do not read. -/
structure StoredSubscription extends TaskSubscription where
  chat : OpenClawChatDelivery := {}
  createdAt : Nat
  updatedAt : Nat
  notifiedStatuses : List String := []
  attempts : List TaskSubscriptionAttempt := []
  deriving DecidableEq, Repr

abbrev SubscriptionsFile := List StoredSubscription

namespace SubscriptionsFile

def find (file : SubscriptionsFile) (subscriptionId : String) : Option StoredSubscription :=
  file.find? fun sub => sub.id = subscriptionId

def modify (file : SubscriptionsFile) (subscriptionId : String)
    (change : StoredSubscription → StoredSubscription) : SubscriptionsFile :=
  match file with
  | [] => []
  | sub :: rest =>
      if sub.id = subscriptionId then change sub :: rest
      else sub :: modify rest subscriptionId change

/-- A call that finds no entry throws or returns without a write. -/
def change (file : SubscriptionsFile) (subscriptionId : String)
    (next : StoredSubscription → StoredSubscription) : Option SubscriptionsFile :=
  if (file.find subscriptionId).isSome then some (file.modify subscriptionId next) else none

end SubscriptionsFile

/-- The fields that `update` may set; the ledger is among them. -/
structure StoredFields extends SubscriptionFields where
  notifiedStatuses : Option (List String) := none
  deriving DecidableEq, Repr

namespace StoredSubscription

def created (id subscriberId : String) (granularity : SubscriptionGranularity)
    (deliveryKind : Option String) (chat : OpenClawChatDelivery) (now : Nat) :
    StoredSubscription where
  id := id
  subscriberId := subscriberId
  granularity := granularity
  deliveryKind := deliveryKind
  chat := chat
  createdAt := now
  updatedAt := now

def updated (sub : StoredSubscription) (fields : StoredFields) (now : Nat) : StoredSubscription :=
  { sub with
    toTaskSubscription := sub.toTaskSubscription.with fields.toSubscriptionFields
    notifiedStatuses := fields.notifiedStatuses.getD sub.notifiedStatuses
    updatedAt := now }

def cancelled (sub : StoredSubscription) (now : Nat) : StoredSubscription :=
  { sub with
    status := .cancelled
    updatedAt := now }

def notified (sub : StoredSubscription) (status : String) (now : Nat) : StoredSubscription :=
  { sub with
    notifiedStatuses := sub.notifiedStatuses ++ [status]
    updatedAt := now }

/-- The attempt is appended, and the fields that sum up the attempts follow it. -/
def attempted (sub : StoredSubscription) (attempt : TaskSubscriptionAttempt) (now : Nat) :
    StoredSubscription :=
  { sub with
    attempts := sub.attempts ++ [attempt]
    deliveryAttempts := (sub.attempts ++ [attempt]).length
    lastAttemptAt := some attempt.attemptedAt
    failureReason :=
      if attempt.success then none
      else some ((attempt.error.map AttemptError.message).getD "delivery failed")
    updatedAt := now }

end StoredSubscription

namespace SubscriptionsFile

variable (file : SubscriptionsFile)

def create (id subscriberId : String) (granularity : SubscriptionGranularity)
    (deliveryKind : Option String) (chat : OpenClawChatDelivery) (now : Nat) : SubscriptionsFile :=
  file ++ [.created id subscriberId granularity deliveryKind chat now]

def update (subscriptionId : String) (fields : StoredFields) (now : Nat) :
    Option SubscriptionsFile :=
  file.change subscriptionId fun sub => sub.updated fields now

def cancel (subscriptionId : String) (now : Nat) : Option SubscriptionsFile :=
  file.change subscriptionId fun sub => sub.cancelled now

/-- A status that is in the ledger is not written again. -/
def markStatusNotified (subscriptionId status : String) (now : Nat) : Option SubscriptionsFile :=
  if (file.find subscriptionId).any fun sub => sub.notifiedStatuses.contains status then none
  else file.change subscriptionId fun sub => sub.notified status now

def appendAttempt (subscriptionId : String) (attempt : TaskSubscriptionAttempt) (now : Nat) :
    Option SubscriptionsFile :=
  file.change subscriptionId fun sub => sub.attempted attempt now

end SubscriptionsFile

/-- A call, with the id that a created subscription gets and the time that the call reads. -/
inductive SubscriptionCall where
  | create (id subscriberId : String) (granularity : SubscriptionGranularity)
      (deliveryKind : Option String) (chat : OpenClawChatDelivery) (now : Nat)
  | update (subscriptionId : String) (fields : StoredFields) (now : Nat)
  | cancel (subscriptionId : String) (now : Nat)
  | markStatusNotified (subscriptionId status : String) (now : Nat)
  | appendAttempt (subscriptionId : String) (attempt : TaskSubscriptionAttempt) (now : Nat)
  deriving DecidableEq, Repr

/-- What a call writes, if it writes. -/
def SubscriptionCall.edit (call : SubscriptionCall) (file : SubscriptionsFile) :
    Option SubscriptionsFile :=
  match call with
  | .create id subscriberId granularity deliveryKind chat now =>
      some (file.create id subscriberId granularity deliveryKind chat now)
  | .update subscriptionId fields now => file.update subscriptionId fields now
  | .cancel subscriptionId now => file.cancel subscriptionId now
  | .markStatusNotified subscriptionId status now =>
      file.markStatusNotified subscriptionId status now
  | .appendAttempt subscriptionId attempt now => file.appendAttempt subscriptionId attempt now

/-- The calls of all stores over the file, which wait for nothing but the file system. -/
def subscriptionStep :=
  ReadModifyWrite.step SubscriptionCall.edit fun _ _ => false

end Aof
