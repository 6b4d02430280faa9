import Aof.Dispatch.DagTransitionHandler

/-!
# Spawn hand-over

The queue of `ipc/spawn-queue.ts`, the long-polls of `ipc/routes/spawn-wait.ts` with their registry,
and the callbacks of `dispatch/plugin-bridge-adapter.ts`.  Each handler runs to its end without
waiting, so that an event is one step.  The ids of the requests come from `randomUUID`, and every
poll is a connection of its own.
-/

namespace Aof

structure TaskContext where
  taskId : String
  agent : String
  timeoutMs : Option Nat := none
  callbackDepth : Option Nat := none
  details : JsObject := []

structure SpawnOptions where
  timeoutMs : Option Nat := none
  correlationId : Option String := none
  onRunComplete : Bool := true
  deriving DecidableEq, Repr

structure SpawnRequest where
  id : String
  taskId : String
  agent : String
  timeoutMs : Option Nat
  correlationId : Option String
  callbackDepth : Nat
  details : JsObject

def TaskContext.request (context : TaskContext) (id : String) (opts : SpawnOptions) :
    SpawnRequest where
  id := id
  taskId := context.taskId
  agent := context.agent
  timeoutMs := opts.timeoutMs <|> context.timeoutMs
  correlationId := opts.correlationId
  callbackDepth := context.callbackDepth.getD 0
  details := context.details

structure SpawnResultPost where
  sessionId : String
  success : Bool
  aborted : Bool
  error : Option String := none
  durationMs : Nat
  deriving DecidableEq, Repr

structure AgentRunOutcome where
  taskId : String
  sessionId : String
  success : Bool
  aborted : Bool
  error : Option String := none
  durationMs : Nat
  deriving DecidableEq, Repr

structure SpawnQueue where
  pending : Dict String SpawnRequest := .empty
  claimed : List String := []

namespace SpawnQueue

def put (queue : SpawnQueue) (request : SpawnRequest) : SpawnQueue :=
  { queue with pending := queue.pending.set request.id request }

def take (queue : SpawnQueue) (id : String) : SpawnQueue where
  pending := queue.pending.erase id
  claimed := id :: queue.claimed

def claim (queue : SpawnQueue) : Option (SpawnRequest × SpawnQueue) :=
  (queue.pending.entries.find? fun entry => entry.1 ∉ queue.claimed).map fun entry =>
    (entry.2, queue.take entry.1)

def tryClaim (queue : SpawnQueue) (id : String) : Option SpawnQueue :=
  if queue.pending.has id then some (queue.take id) else none

end SpawnQueue

structure PendingEntry where
  taskId : String
  onRunComplete : Bool
  deriving DecidableEq, Repr

/-- What has happened to the requests, by their ids.  The program keeps no such record. -/
inductive SpawnRecord where
  | queued (id : String)
  | handed (id : String) (poll : Nat)
  | completed (id : String) (outcome : AgentRunOutcome)
  | forced (id : String)
  deriving DecidableEq, Repr

def SpawnRecord.id : SpawnRecord → String
  | queued id | handed id _ | completed id _ | forced id => id

/-- The queue, the polls that wait for a request in the order of their listeners, the connections in
the registry, the callbacks of the bridge, and the record. -/
structure SpawnBridge where
  queue : SpawnQueue := {}
  listeners : List Nat := []
  active : List Nat := []
  callbacks : Dict String PendingEntry := .empty
  history : List SpawnRecord := []

namespace SpawnBridge

def record (bridge : SpawnBridge) (entry : SpawnRecord) : SpawnBridge :=
  { bridge with history := bridge.history ++ [entry] }

/-- The listener of a poll: it is gone once the poll is settled. -/
def onEnqueue (request : SpawnRequest) (bridge : SpawnBridge) (poll : Nat) : SpawnBridge :=
  if poll ∈ bridge.listeners then
    match bridge.queue.tryClaim request.id with
    | none => bridge
    | some queue =>
        { bridge with queue, listeners := bridge.listeners.erase poll }.record
          (.handed request.id poll)
  else bridge

def enqueue (bridge : SpawnBridge) (request : SpawnRequest) : SpawnBridge :=
  let queued := { bridge with queue := bridge.queue.put request }.record (.queued request.id)
  queued.listeners.foldl (onEnqueue request) queued

def spawnSession (bridge : SpawnBridge) (id : String) (context : TaskContext)
    (opts : SpawnOptions) : SpawnResult × SpawnBridge :=
  if bridge.active.isEmpty then (.failure "no-plugin-attached", bridge)
  else
    let queued := bridge.enqueue (context.request id opts)
    (.success id,
      { queued with callbacks := queued.callbacks.set id ⟨context.taskId, opts.onRunComplete⟩ })

/-- A long-poll is registered and gets the oldest request, or waits for the next one. -/
def handleSpawnWait (bridge : SpawnBridge) (poll : Nat) : SpawnBridge :=
  match bridge.queue.claim with
  | some (request, queue) =>
      { bridge with queue, active := bridge.active ++ [poll] }.record (.handed request.id poll)
  | none =>
      { bridge with active := bridge.active ++ [poll], listeners := bridge.listeners ++ [poll] }

def keepalive (bridge : SpawnBridge) (poll : Nat) : SpawnBridge :=
  { bridge with listeners := bridge.listeners.erase poll }

def close (bridge : SpawnBridge) (poll : Nat) : SpawnBridge :=
  { bridge with active := bridge.active.erase poll, listeners := bridge.listeners.erase poll }

def complete (bridge : SpawnBridge) (id : String) (outcome : String → AgentRunOutcome) :
    SpawnBridge :=
  match bridge.callbacks.get? id with
  | none => bridge
  | some entry =>
      let removed := { bridge with callbacks := bridge.callbacks.erase id }
      if entry.onRunComplete then removed.record (.completed id (outcome entry.taskId)) else removed

/-- The task that the result names, if any, goes before the one that was recorded. -/
def deliverResult (bridge : SpawnBridge) (spawnId : String) (result : SpawnResultPost)
    (taskId : Option String := none) : SpawnBridge :=
  bridge.complete spawnId fun recorded =>
    { taskId := taskId.getD recorded
      sessionId := result.sessionId
      success := result.success
      aborted := result.aborted
      error := result.error
      durationMs := result.durationMs }

def forceCompleteSession (bridge : SpawnBridge) (sessionId : String) : SpawnBridge :=
  (bridge.record (.forced sessionId)).complete sessionId fun taskId =>
    { taskId, sessionId, success := false, aborted := true, durationMs := 0 }

end SpawnBridge

inductive SpawnEvent where
  | spawnSession (id : String) (context : TaskContext) (opts : SpawnOptions)
  | wait (poll : Nat)
  | keepalive (poll : Nat)
  | close (poll : Nat)
  | deliverResult (spawnId : String) (result : SpawnResultPost)
  | forceCompleteSession (sessionId : String)

/-- One event; a request gets an id that has not been seen, and a poll a connection of its own. -/
def spawnStep (bridge : SpawnBridge) : SpawnEvent → Option SpawnBridge
  | .spawnSession id context opts =>
      if id ∈ bridge.history.map SpawnRecord.id then none
      else some (bridge.spawnSession id context opts).2
  | .wait poll => if poll ∈ bridge.active then none else some (bridge.handleSpawnWait poll)
  | .keepalive poll => some (bridge.keepalive poll)
  | .close poll => some (bridge.close poll)
  | .deliverResult spawnId result => some (bridge.deliverResult spawnId result)
  | .forceCompleteSession sessionId => some (bridge.forceCompleteSession sessionId)

end Aof
