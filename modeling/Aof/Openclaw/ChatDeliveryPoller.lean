import Aof.Lib.Run
import Aof.Openclaw.ToolInvocationContext

/-!
# The chat-delivery poller

What `openclaw/chat-delivery-poller.ts` does with a request, from one await to the next.  The
functions of the runtime answer to a turn.  The lookup of a session is left out: it catches what it
throws.
-/

namespace Aof

namespace ChatDeliveryPoller

open ToolInvocationContext (getNested trimmed?)

inductive Call (α : Type) where
  | missing
  | throws
  | returns (value : α)

def Call.value? {α : Type} : Call α → Option α
  | .returns value => some value
  | _ => none

def Call.isThrow {α : Type} : Call α → Bool
  | .throws => true
  | _ => false

structure ChatDeliveryRequest where
  id : String
  sessionKey : Option String := none
  deriving DecidableEq

/-- What the runtime answers while a request is handled, up to the first await.  The config is
loaded for each purpose again. -/
structure Runtime where
  enqueueSystemEvent : Call Unit := .returns ()
  requestHeartbeatNow : Call Unit := .returns ()
  mainKeyConfig : Call JsValue := .missing
  heartbeatConfig : Call JsValue := .missing
  runConfig : Call JsValue := .missing
  canRun : Bool := true
  resolveAgentWorkspaceDir : Call String := .missing

/-- What it answers when the workspace is ready, up to the run.  Only the last of these calls stands
in a `try`. -/
structure Preparation where
  ensureAgentWorkspace : Call Unit := .missing
  resolveAgentDir : Call Unit := .missing
  resolveSessionFilePath : Call Unit := .missing
  runEmbeddedPiAgent : Call Unit := .returns ()

def DEFAULT_MAIN_KEY : String := "main"

def EPHEMERAL_SESSION_SEGMENTS : List String := ["cron", "subagent"]

def splitColons (text : String) : List String := (text.toList.splitOn ':').map String.ofList

def readMainKey (config : Option JsValue) : String :=
  (trimmed? (getNested (config.getD .undefined) "session.mainKey")).getD DEFAULT_MAIN_KEY

def redirectEphemeralSessionKey (sessionKey mainKey : String) : String :=
  match splitColons sessionKey with
  | agent :: agentId :: segment :: _ =>
      if agent = "agent" ∧ agentId ≠ "" ∧ segment ∈ EPHEMERAL_SESSION_SEGMENTS then
        "agent:" ++ agentId ++ ":" ++ mainKey
      else sessionKey
  | _ => sessionKey

def parseAgentIdFromSessionKey (sessionKey : String) : Option String :=
  match splitColons sessionKey with
  | agent :: agentId :: _ => if agent = "agent" then trimmed? (.str agentId) else none
  | _ => none

def hasEvery (value : JsValue) : Bool := (trimmed? (getNested value "heartbeat.every")).isSome

def agentHasHeartbeat (config : Option JsValue) (agentId : String) : Bool :=
  let agents := getNested (config.getD .undefined) "agents"
  let entry := match getNested agents "list" with
    | .arr items => items.find? fun candidate =>
        (getNested candidate "id").strictEq (.str agentId)
    | _ => none
  entry.any hasEvery || hasEvery (getNested agents "defaults")

/-- A wake that has claimed the slot of its session: it waits for the workspace, or for its run. -/
inductive Wake where
  | preparing (sessionKey : String)
  | running (sessionKey : String)
  | ended
  deriving DecidableEq

def Wake.sessionKey? : Wake → Option String
  | .preparing sessionKey | .running sessionKey => some sessionKey
  | .ended => none

/-- `injectSessionWakeUp`: the session that is to be woken by an embedded run, if there is one.
Without a result it throws. -/
def injectSessionWakeUp (req : ChatDeliveryRequest) (runtime : Runtime) : Option (Option String) :=
  match req.sessionKey.filter (· ≠ "") with
  | none => some none
  | some capturedSessionKey =>
      match runtime.enqueueSystemEvent, runtime.requestHeartbeatNow with
      | .missing, _ | _, .missing => some none
      | enqueue, _ =>
          if runtime.mainKeyConfig.isThrow then none
          else
            let wakeSessionKey := redirectEphemeralSessionKey capturedSessionKey
              (readMainKey runtime.mainKeyConfig.value?)
            if enqueue.isThrow then some none
            else
              match parseAgentIdFromSessionKey wakeSessionKey with
              | none => some none
              | some agentId =>
                  if runtime.heartbeatConfig.isThrow then none
                  else if agentHasHeartbeat runtime.heartbeatConfig.value? agentId then some none
                  else some (some wakeSessionKey)

/-- `inFlightEmbeddedWakes.delete` -/
def release (inFlight : List String) (sessionKey : String) : List String :=
  inFlight.filter (· ≠ sessionKey)

/-- `wakeViaEmbeddedRun` up to its first await: the sessions in flight, and the wake if it waits. -/
def wakeViaEmbeddedRun (inFlight : List String) (sessionKey : String) (runtime : Runtime) :
    List String × Option Wake :=
  if sessionKey ∈ inFlight then (inFlight, none)
  else
    let claimed := inFlight ++ [sessionKey]
    if !runtime.canRun then (release claimed sessionKey, none)
    else if runtime.runConfig.isThrow then (claimed, none)
    else if !((runtime.runConfig.value?.map JsValue.isTruthy).getD false) then
      (release claimed sessionKey, none)
    else if runtime.resolveAgentWorkspaceDir.isThrow then (claimed, none)
    else if (runtime.resolveAgentWorkspaceDir.value?.filter (· ≠ "")).isNone then
      (release claimed sessionKey, none)
    else (claimed, some (.preparing sessionKey))

def prepare (inFlight : List String) (sessionKey : String) (preparation : Preparation) :
    List String × Wake :=
  if preparation.ensureAgentWorkspace.isThrow || preparation.resolveAgentDir.isThrow ||
      preparation.resolveSessionFilePath.isThrow then
    (inFlight, .ended)
  else if preparation.runEmbeddedPiAgent.isThrow then (release inFlight sessionKey, .ended)
  else (inFlight, .running sessionKey)

/-- Where `dispatchAndAck` waits: for the send, for the post of a result with or without error. -/
inductive Dispatch where
  | sending (id : String)
  | posting (id : String) (error : Option String)
  | finished (posted : Bool)
  deriving DecidableEq

structure State where
  inFlightEmbeddedWakes : List String := []
  dispatches : List Dispatch := []
  wakes : List Wake := []

/-- What happens next: a request arrives, or what a request or a wake waits for settles. -/
inductive Step where
  | request (req : ChatDeliveryRequest) (runtime : Runtime)
  | sent (index : Nat) (error : Option String)
  | posted (index : Nat) (error : Option String)
  | prepared (index : Nat) (preparation : Preparation)
  | ran (index : Nat)

/-- The synchronous part of `dispatchAndAck`.  What the wake-up throws is not caught. -/
def dispatchAndAck (state : State) (req : ChatDeliveryRequest) (runtime : Runtime) : State :=
  match injectSessionWakeUp req runtime with
  | none => { state with dispatches := state.dispatches ++ [.finished false] }
  | some none => { state with dispatches := state.dispatches ++ [.sending req.id] }
  | some (some wakeSessionKey) =>
      let (inFlight, wake) :=
        wakeViaEmbeddedRun state.inFlightEmbeddedWakes wakeSessionKey runtime
      { inFlightEmbeddedWakes := inFlight
        dispatches := state.dispatches ++ [.sending req.id]
        wakes := state.wakes ++ wake.toList }

/-- A request whose success cannot be posted is posted as a failure. -/
def Dispatch.afterPost (id : String) (failed : Option String) : Option String → Dispatch
  | none => match failed with
    | some error => .posting id (some error)
    | none => .finished true
  | some _ => .finished true

def step (state : State) : Step → Option State
  | .request req runtime => some (dispatchAndAck state req runtime)
  | .sent index error =>
      match state.dispatches[index]? with
      | some (.sending id) =>
          some { state with dispatches := state.dispatches.set index (.posting id error) }
      | _ => none
  | .posted index error =>
      match state.dispatches[index]? with
      | some (.posting id posted) =>
          some { state with
            dispatches := state.dispatches.set index (.afterPost id error posted) }
      | _ => none
  | .prepared index preparation =>
      match state.wakes[index]? with
      | some (.preparing sessionKey) =>
          let (inFlight, wake) := prepare state.inFlightEmbeddedWakes sessionKey preparation
          some { state with
            inFlightEmbeddedWakes := inFlight
            wakes := state.wakes.set index wake }
      | _ => none
  | .ran index =>
      match state.wakes[index]? with
      | some (.running sessionKey) =>
          some { state with
            inFlightEmbeddedWakes := release state.inFlightEmbeddedWakes sessionKey
            wakes := state.wakes.set index .ended }
      | _ => none

end ChatDeliveryPoller

end Aof
