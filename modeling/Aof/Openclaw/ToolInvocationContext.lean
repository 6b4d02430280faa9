import Aof.Lib.JsValue

/-!
# The routes of sessions and tool calls

The store of `openclaw/tool-invocation-context.ts`.  A JavaScript `Map` lists its keys in the order
in which they were first set, as `Dict` does.  An operation runs without waiting and reads the clock
once.
-/

namespace Aof

structure OpenClawNotificationRecipient where
  sessionKey : Option String := none
  sessionId : Option String := none
  replyTarget : Option String := none
  channel : Option String := none
  threadId : Option String := none
  actor : Option String := none
  capturedAt : String
  deriving DecidableEq, Repr

structure StoredRecipient where
  recipient : OpenClawNotificationRecipient
  expiresAt : JsNumber
  deriving DecidableEq, Repr

abbrev RouteMap := Dict String StoredRecipient

namespace ToolInvocationContext

def DEFAULT_ROUTE_TTL_MS : JsNumber := .posInf

def DEFAULT_MAX_SESSION_ROUTES : Nat := 2048

def DEFAULT_MAX_TOOL_CALLS : Nat := 2048

def getNested (value : JsValue) (path : String) : JsValue :=
  (JsString.splitDots path).foldl (fun current key => (current.readProperty key).getD .undefined)
    value

/-- The trimmed string, unless it is blank. -/
def trimmed? (value : JsValue) : Option String :=
  match value with
  | .str text => (some (String.ofList (JsString.trim text.toList))).filter fun text => text ≠ ""
  | _ => none

def getFirstString (value : JsValue) (paths : List String) : Option String :=
  paths.findSome? fun path => trimmed? (getNested value path)

def extractToolName (event : JsValue) : Option String :=
  getFirstString event ["toolName", "name", "tool.name", "payload.toolName", "payload.name"]

def extractToolCallId (event : JsValue) : Option String :=
  getFirstString event
    ["toolCallId", "callId", "id", "payload.toolCallId", "payload.callId", "payload.id"]

def extractRecipient (event : JsValue) (capturedAt : String) :
    Option OpenClawNotificationRecipient :=
  let sessionKey := getFirstString event
    ["sessionKey", "session.key", "payload.sessionKey", "context.sessionKey"]
  let sessionId := getFirstString event
    ["sessionId", "session.id", "payload.sessionId", "context.sessionId"]
  let replyTarget := getFirstString event
    ["replyTarget", "target", "lastTo", "route.target", "payload.replyTarget", "payload.target",
      "payload.lastTo"]
  if sessionKey.isNone ∧ sessionId.isNone ∧ replyTarget.isNone then none
  else some
    { sessionKey, sessionId, replyTarget, capturedAt
      channel := getFirstString event
        ["channel", "lastChannel", "route.channel", "payload.channel", "payload.lastChannel"]
      threadId := getFirstString event
        ["threadId", "topicId", "payload.threadId", "payload.topicId"]
      actor := getFirstString event
        ["agentId", "fromAgent", "payload.agentId", "payload.fromAgent"] }

def mergeRecipients (primary : OpenClawNotificationRecipient) :
    Option OpenClawNotificationRecipient → OpenClawNotificationRecipient
  | none => primary
  | some fallback =>
      { sessionKey := primary.sessionKey <|> fallback.sessionKey
        sessionId := primary.sessionId <|> fallback.sessionId
        replyTarget := primary.replyTarget <|> fallback.replyTarget
        channel := primary.channel <|> fallback.channel
        threadId := primary.threadId <|> fallback.threadId
        actor := primary.actor <|> fallback.actor
        capturedAt := primary.capturedAt }

/-- The loop of `storeRecipient`: the first key goes as long as there are too many, unless it is
empty. -/
def evictEntries (maxEntries : Nat) :
    List (String × StoredRecipient) → List (String × StoredRecipient)
  | [] => []
  | oldest :: rest =>
      if rest.length + 1 ≤ maxEntries ∨ oldest.1 = "" then oldest :: rest
      else evictEntries maxEntries rest

theorem evictEntries_sublist (maxEntries : Nat) (entries : List (String × StoredRecipient)) :
    (evictEntries maxEntries entries).Sublist entries := by
  induction entries with
  | nil => exact .refl _
  | cons oldest rest ih =>
      unfold evictEntries
      split
      · exact .refl _
      · exact ih.cons oldest

def evict (maxEntries : Nat) (map : RouteMap) : RouteMap where
  entries := evictEntries maxEntries map.entries
  nodup := map.nodup.sublist ((evictEntries_sublist maxEntries map.entries).map Prod.fst)

def expired (now : Nat) (entry : StoredRecipient) : Bool :=
  entry.expiresAt.lessEq (.finite now)

def prune (now : Nat) (map : RouteMap) : RouteMap where
  entries := map.entries.filter fun entry => !expired now entry.2
  nodup := map.nodup.sublist (List.filter_sublist.map Prod.fst)

end ToolInvocationContext

open ToolInvocationContext

structure OpenClawToolInvocationContextStore where
  bySessionKey : RouteMap := .empty
  bySessionId : RouteMap := .empty
  byToolCallId : RouteMap := .empty
  routeTtlMs : JsNumber := DEFAULT_ROUTE_TTL_MS
  maxSessionRoutes : Nat := DEFAULT_MAX_SESSION_ROUTES
  maxToolCalls : Nat := DEFAULT_MAX_TOOL_CALLS

namespace OpenClawToolInvocationContextStore

def pruneExpired (store : OpenClawToolInvocationContextStore) (now : Nat) :
    OpenClawToolInvocationContextStore :=
  { store with
    bySessionKey := prune now store.bySessionKey
    bySessionId := prune now store.bySessionId
    byToolCallId := prune now store.byToolCallId }

def storeRecipient (store : OpenClawToolInvocationContextStore) (map : RouteMap) (key : String)
    (recipient : OpenClawNotificationRecipient) (maxEntries now : Nat) : RouteMap :=
  evict maxEntries (map.set key ⟨recipient, (JsNumber.finite now).add store.routeTtlMs⟩)

/-- `getRecipient`; an entry that has expired is also deleted. -/
def getRecipient (map : RouteMap) (key : String) (now : Nat) :
    Option OpenClawNotificationRecipient × RouteMap :=
  match map.get? key with
  | none => (none, map)
  | some entry => if expired now entry then (none, map.erase key) else (some entry.recipient, map)

def captureMessageRoute (store : OpenClawToolInvocationContextStore) (event : JsValue)
    (now : Nat) (capturedAt : String) : OpenClawToolInvocationContextStore :=
  let store := store.pruneExpired now
  match extractRecipient event capturedAt with
  | none => store
  | some recipient =>
      { store with
        bySessionKey := recipient.sessionKey.elim store.bySessionKey fun key =>
          store.storeRecipient store.bySessionKey key recipient store.maxSessionRoutes now
        bySessionId := recipient.sessionId.elim store.bySessionId fun key =>
          store.storeRecipient store.bySessionId key recipient store.maxSessionRoutes now }

/-- The route of the session of a tool call, with the maps after it was looked up. -/
def fallback (store : OpenClawToolInvocationContextStore)
    (recipient : OpenClawNotificationRecipient) (now : Nat) :
    Option OpenClawNotificationRecipient × OpenClawToolInvocationContextStore :=
  match recipient.sessionKey, recipient.sessionId with
  | some sessionKey, _ =>
      let (found, map) := getRecipient store.bySessionKey sessionKey now
      (found, { store with bySessionKey := map })
  | none, some sessionId =>
      let (found, map) := getRecipient store.bySessionId sessionId now
      (found, { store with bySessionId := map })
  | none, none => (none, store)

def captureToolCall (store : OpenClawToolInvocationContextStore) (event : JsValue) (now : Nat)
    (capturedAt : String) : OpenClawToolInvocationContextStore :=
  let store := store.pruneExpired now
  if extractToolName event ≠ some "aof_dispatch" then store
  else
    match extractToolCallId event, extractRecipient event capturedAt with
    | some toolCallId, some recipient =>
        let (found, store) := store.fallback recipient now
        { store with
          byToolCallId := store.storeRecipient store.byToolCallId toolCallId
            (mergeRecipients recipient found) store.maxToolCalls now }
    | _, _ => store

def consumeToolCall (store : OpenClawToolInvocationContextStore) (toolCallId : String)
    (now : Nat) : Option OpenClawNotificationRecipient × OpenClawToolInvocationContextStore :=
  let store := store.pruneExpired now
  let (recipient, map) := getRecipient store.byToolCallId toolCallId now
  (recipient, { store with byToolCallId := map.erase toolCallId })

def clearToolCall (store : OpenClawToolInvocationContextStore) (event : JsValue) :
    OpenClawToolInvocationContextStore :=
  match extractToolCallId event with
  | none => store
  | some toolCallId => { store with byToolCallId := store.byToolCallId.erase toolCallId }

def clearSessionRoute (store : OpenClawToolInvocationContextStore) (event : JsValue) (now : Nat)
    (capturedAt : String) : OpenClawToolInvocationContextStore :=
  let recipient := extractRecipient event capturedAt
  let store := { store with
    bySessionKey := (recipient.bind (·.sessionKey)).elim store.bySessionKey store.bySessionKey.erase
    bySessionId := (recipient.bind (·.sessionId)).elim store.bySessionId store.bySessionId.erase }
  store.pruneExpired now

end OpenClawToolInvocationContextStore

inductive RouteCall where
  | captureMessageRoute (event : JsValue) (now : Nat) (capturedAt : String)
  | captureToolCall (event : JsValue) (now : Nat) (capturedAt : String)
  | consumeToolCall (toolCallId : String) (now : Nat)
  | clearToolCall (event : JsValue)
  | clearSessionRoute (event : JsValue) (now : Nat) (capturedAt : String)

namespace OpenClawToolInvocationContextStore

def perform (store : OpenClawToolInvocationContextStore) :
    RouteCall → Option OpenClawNotificationRecipient × OpenClawToolInvocationContextStore
  | .captureMessageRoute event now capturedAt =>
      (none, store.captureMessageRoute event now capturedAt)
  | .captureToolCall event now capturedAt => (none, store.captureToolCall event now capturedAt)
  | .consumeToolCall toolCallId now => store.consumeToolCall toolCallId now
  | .clearToolCall event => (none, store.clearToolCall event)
  | .clearSessionRoute event now capturedAt =>
      (none, store.clearSessionRoute event now capturedAt)

end OpenClawToolInvocationContextStore

structure RouteState where
  store : OpenClawToolInvocationContextStore
  answers : List (RouteCall × Option OpenClawNotificationRecipient) := []

def RouteState.after (state : RouteState) (call : RouteCall) : RouteState where
  store := (state.store.perform call).2
  answers := (call, (state.store.perform call).1) :: state.answers

def RouteState.step (state : RouteState) (call : RouteCall) : Option RouteState :=
  some (state.after call)

end Aof
