import Aof.Lib.Dict
import Aof.Lib.LiveSet
import Aof.Lib.Run
import Mathlib.Data.List.Basic

/-!
# Resource subscriptions

The subscription manager of the MCP server (`mcp/subscriptions.ts`).  Its steps go from one await to
the next.  A flush reads the live maps: it meets a session that subscribes behind it, and misses one
that leaves.  What starts and stops the watcher is left out.
-/

namespace Aof

namespace Mcp

abbrev Text := List Char

def STATUS_DIRS : List Text :=
  ["backlog", "ready", "in-progress", "blocked", "review", "done"].map String.toList

structure TaskPath where
  status : Text
  taskId : Text
  deriving DecidableEq

/-- `split("\\").join("/")`, and then the last three components against
`/\/tasks\/([^/]+)\/([^/]+)\.md$/`. -/
def parseTaskPath (filePath : Text) : Option TaskPath :=
  let normalized := filePath.map fun c => if c = '\\' then '/' else c
  match (normalized.splitOn '/').reverse with
  | file :: status :: tasks :: _ :: _ =>
      let taskId := file.take (file.length - 3)
      if tasks = "tasks".toList ∧ STATUS_DIRS.contains status ∧ taskId ≠ [] ∧
          ".md".toList.isSuffixOf file then
        some ⟨status, taskId⟩
      else none
  | _ => none

/-- What is read of a task.  The assignee is taken only if it is a string. -/
structure ResolvedTask where
  team : Option Text := none
  leaseAgent : Option Text := none
  agent : Option Text := none
  assignee : Option Text := none
  deriving DecidableEq

def truthyText (text : Option Text) : Option Text := text.filter (· ≠ [])

def resolveAssignedAgent (task : ResolvedTask) : Option Text :=
  ((truthyText task.leaseAgent).or (truthyText task.agent)).or task.assignee

/-- The task is what the store finds, if it finds it.  No two of these resources are the same. -/
def mapWatchEventToUris (path : Text) (task : Option ResolvedTask) : List Text :=
  match parseTaskPath path with
  | none => []
  | some info =>
      let ofTask := fun task : ResolvedTask =>
        ((truthyText task.team).map ("aof://views/kanban/".toList ++ ·)).toList ++
          ((truthyText (resolveAssignedAgent task)).map ("aof://views/mailbox/".toList ++ ·)).toList
      ["aof://tasks/".toList ++ info.taskId, "aof://tasks?status=".toList ++ info.status] ++
        (task.map ofTask).getD []

def isSubscribableUri (uri : Text) : Bool :=
  "aof://tasks/".toList.isPrefixOf uri || "aof://tasks?status=".toList.isPrefixOf uri ||
    "aof://views/kanban/".toList.isPrefixOf uri || "aof://views/mailbox/".toList.isPrefixOf uri

/-- A record of `subscriptions`: which object it is, and its sessions. -/
structure SubscriptionRecord where
  id : Nat
  subscribers : LiveSet Text

structure Cursor where
  uri : Text
  record : Nat
  place : Nat
  deriving DecidableEq

/-- A flush waits for a send, with the resources that it has not come to. -/
inductive Flush where
  | sending (cursor : Cursor) (uris : List Text)
  | finished
  deriving DecidableEq

structure Notification where
  uri : Text
  sessionId : Text
  deriving DecidableEq

/-- The manager, its flushes and the notifications that it has tried to send, oldest first.  The
program keeps no such record. -/
structure SubscriptionManager where
  subscriptions : Dict Text SubscriptionRecord := .empty
  nextRecord : Nat := 0
  pending : List Text := []
  debounceTimer : Bool := false
  flushes : List Flush := []
  sent : List Notification := []

abbrev Subscriptions := Dict Text SubscriptionRecord

/-- The first session of the first resource that has one, with where the flush goes on. -/
def firstSend (subscriptions : Subscriptions) :
    List Text → Option (Notification × Cursor × List Text)
  | [] => none
  | uri :: uris =>
      match subscriptions.get? uri with
      | none => firstSend subscriptions uris
      | some record =>
          match record.subscribers.after 0 with
          | some (place, sessionId) =>
              some (⟨uri, sessionId⟩, ⟨uri, record.id, place + 1⟩, uris)
          | none => firstSend subscriptions uris

/-- The next session of the record that is being read.  A record that was given up is empty. -/
def Cursor.next (subscriptions : Subscriptions) (cursor : Cursor) : Option (Nat × Text) :=
  (subscriptions.get? cursor.uri).bind fun record =>
    if record.id = cursor.record then record.subscribers.after cursor.place else none

def nextSend (subscriptions : Subscriptions) (cursor : Cursor) (uris : List Text) :
    Option (Notification × Cursor × List Text) :=
  match cursor.next subscriptions with
  | some (place, sessionId) =>
      some (⟨cursor.uri, sessionId⟩, { cursor with place := place + 1 }, uris)
  | none => firstSend subscriptions uris

namespace SubscriptionManager

def subscribe (manager : SubscriptionManager) (uri sessionId : Text) : SubscriptionManager :=
  let record := manager.subscriptions.get? uri
  let fresh : SubscriptionRecord := ⟨manager.nextRecord, .empty⟩
  let subscribed := record.getD fresh
  { manager with
    subscriptions := manager.subscriptions.set uri
      { subscribed with subscribers := subscribed.subscribers.add sessionId }
    nextRecord := if record.isNone then manager.nextRecord + 1 else manager.nextRecord
    sent := manager.sent ++ [⟨uri, sessionId⟩] }

def unsubscribe (manager : SubscriptionManager) (uri sessionId : Text) : SubscriptionManager :=
  match manager.subscriptions.get? uri with
  | none => manager
  | some record =>
      let subscribers := record.subscribers.delete sessionId
      { manager with
        subscriptions := if subscribers.entries = [] then manager.subscriptions.erase uri
          else manager.subscriptions.set uri { record with subscribers := subscribers } }

def addPending (manager : SubscriptionManager) (uris : List Text) : List Text :=
  uris.foldl (fun pending uri =>
    if manager.subscriptions.has uri && !pending.contains uri then pending ++ [uri] else pending)
    manager.pending

/-- The rest of `handleWatchEvent`, when the resources of the event are known. -/
def handleWatchEvent (manager : SubscriptionManager) (uris : List Text) : SubscriptionManager :=
  if uris = [] then manager
  else
    let pending := manager.addPending uris
    { manager with
      pending := pending
      debounceTimer := manager.debounceTimer || pending ≠ [] }

def proceed (manager : SubscriptionManager) (index : Nat)
    (next : Option (Notification × Cursor × List Text)) : SubscriptionManager :=
  match next with
  | some (notification, cursor, uris) =>
      { manager with
        flushes := manager.flushes.set index (.sending cursor uris)
        sent := manager.sent ++ [notification] }
  | none => { manager with flushes := manager.flushes.set index .finished }

/-- The timer runs out: a flush begins, and comes to its first send. -/
def flushPending (manager : SubscriptionManager) : SubscriptionManager :=
  let begun : SubscriptionManager :=
    { manager with
      pending := []
      debounceTimer := false
      flushes := manager.flushes ++ [.finished] }
  begun.proceed manager.flushes.length (firstSend manager.subscriptions manager.pending)

end SubscriptionManager

/-- What happens next.  A watch event counts from when its resources are known. -/
inductive Step where
  | subscribe (uri sessionId : Text)
  | unsubscribe (uri sessionId : Text)
  | watchEvent (path : Text) (task : Option ResolvedTask)
  | flush
  | settle (index : Nat) (ok : Bool)
  deriving DecidableEq

/-- A subscription to another kind of resource throws, and a send that fails ends its flush. -/
def step (manager : SubscriptionManager) : Step → Option SubscriptionManager
  | .subscribe uri sessionId =>
      some (if isSubscribableUri uri then manager.subscribe uri sessionId else manager)
  | .unsubscribe uri sessionId => some (manager.unsubscribe uri sessionId)
  | .watchEvent path task =>
      some (manager.handleWatchEvent (mapWatchEventToUris path task))
  | .flush => if manager.debounceTimer then some manager.flushPending else none
  | .settle index ok =>
      match manager.flushes[index]? with
      | some (.sending cursor uris) =>
          some (manager.proceed index
            (if ok then nextSend manager.subscriptions cursor uris else none))
      | _ => none

end Mcp

end Aof
