import Aof.Permissions.TaskPermissions
import Aof.Schemas.TaskFrontmatter
import Aof.Store.SubscriptionStore

/-!
# The dispatch tool

`aofDispatch` of `tools/project-tools.ts`: the checks of its input, the creation of the task and the
subscriptions that are asked for at once.  It runs alone, on a file system where nothing fails.  The
texts of errors and of the response are left out.
-/

namespace Aof.ProjectTools

open TaskFiles (quietly)

/-- `notifyOnCompletion` without a delivery is a signal for the plugins. -/
inductive NotifyOnCompletion where
  | signal (wanted : Bool)
  | delivery (raw : JsObject)

structure AOFDispatchInput where
  title : String
  brief : String
  description : Option String := none
  agent : Option String := none
  team : Option String := none
  role : Option String := none
  priority : Option String := none
  dependsOn : Option (List String) := none
  parentId : Option String := none
  metadata : Option (Dict String JsValue) := none
  tags : Option (List String) := none
  actor : Option String := none
  project : Option String := none
  subscribe : Option SubscriptionGranularity := none
  notifyOnCompletion : Option NotifyOnCompletion := none
  timeoutMs : Option JsNumber := none

/-- `manifest?.owner` of a project, whose fields nobody has checked. -/
structure ProjectOwner where
  lead : JsValue := .undefined
  team : JsValue := .undefined

/-- `manifest` and `orgChart` are what loading a file gives: the owner of a project, and the ids of
the agents at the path of a chart, unless it is missing or not valid. -/
structure ToolContext where
  projectId : Option String := none
  orgChartPath : Option String := none
  manifest : String → Option ProjectOwner := fun _ => none
  orgChart : String → Option (List String) := fun _ => none

structure CompletionDelivery where
  kind : String
  subscriberId : Option String
  rest : JsObject

/-- An entry of `subscriptions.json`, without the fields that only deliveries write. -/
structure Subscription where
  id : String
  subscriberId : String
  granularity : SubscriptionGranularity
  status : SubscriptionStatus := .active
  createdAt : Nat
  delivery : Option CompletionDelivery := none

/-- A `task.created` event. -/
structure CreatedEvent where
  actor : String
  taskId : String
  title : Title
  priority : TaskPriority
  routing : TaskRouting

/-- The task files, the subscriptions files by the directories of the tasks, and the events that the
tool has logged. -/
structure State where
  files : TaskDirectory
  subscriptions : TaskStatus → String → Option (List Subscription)
  events : List CreatedEvent

abbrev Tool := Command State

/-- An id as `nextTaskId` makes it. -/
abbrev TaskId := { id : String // Schemas.isTaskId id = true }

/-- What the call draws: `ids` are those of the attempts to create the task. -/
structure Draws where
  ids : Nat → TaskId
  subscriptionId : String
  notificationSubscriptionId : String
  now : Nat

structure AOFDispatchResult where
  taskId : String
  status : TaskStatus
  subscriptionId : Option String
  notificationSubscriptionId : Option String

def get (id : String) : Tool (Option TaskObject) := fun state =>
  match Aof.get.alone quietly (state.files id) with
  | some (task, after) => (some task, { state with files := Function.update state.files id after })
  | none => (none, state)

/-- `create`, with the attempts that are left; a taken name makes it draw another id. -/
def create (opts : CreateOpts) (parentId : Option String) (draws : Draws) :
    Nat → Nat → Tool (String × Document)
  | 0, _ => Command.throw
  | left + 1, attempt => fun state =>
      let id := (draws.ids attempt).val
      let document := opts.document draws.now
      if parentId.all Schemas.isTaskId ∧ document.dependsOn.all Schemas.isTaskId then
        if ((state.files id).copies document.status).isSome then
          create opts parentId draws left (attempt + 1) state
        else
          (some (id, document), { state with
            files := Function.update state.files id
              ((state.files id).write document.status document 1) })
      else (none, state)

def taskDir (taskId : String) : Tool TaskStatus := do
  match ← get taskId with
  | some task => pure task.document.status
  | none => Command.throw

/-- What `SubscriptionsFile` accepts of what is in a file. -/
def parseSubscriptions : Option (List Subscription) → Option (List Subscription)
  | none => some []
  | some entries =>
      if entries.all fun sub => sub.subscriberId ≠ "" ∧ sub.delivery.all fun delivery =>
        delivery.kind ≠ "" then some entries
      else none

def readSubscriptionsFile (dir : TaskStatus) (taskId : String) : Tool (List Subscription) :=
  fun state => (parseSubscriptions (state.subscriptions dir taskId), state)

def writeSubscriptionsFile (dir : TaskStatus) (taskId : String) (entries : List Subscription) :
    Tool Unit :=
  Command.modify fun state => { state with
    subscriptions := Function.update state.subscriptions dir
      (Function.update (state.subscriptions dir) taskId (some entries)) }

/-- `SubscriptionStore.create` -/
def addSubscription (taskId : String) (sub : Subscription) : Tool String := do
  let dir ← taskDir taskId
  let entries ← readSubscriptionsFile dir taskId
  writeSubscriptionsFile dir taskId (entries ++ [sub])
  pure sub.id

def listActive (taskId : String) : Tool (List Subscription) := do
  let dir ← taskDir taskId
  let entries ← readSubscriptionsFile dir taskId
  pure (entries.filter fun sub => sub.status = .active)

def normalizePriority (priority : Option String) : TaskPriority :=
  match (truthy priority).map String.toLower with
  | some "critical" => .critical
  | some "high" => .high
  | some "low" => .low
  | _ => .normal

def trimmedText : Option JsValue → String
  | some (.str text) => jsTrim text
  | _ => ""

def normalizeCompletionDelivery (raw : JsObject) : Option CompletionDelivery :=
  let kind := trimmedText (Dict.getEntries "kind" raw)
  if kind = "" then none
  else some ⟨kind, truthy (some (trimmedText (Dict.getEntries "subscriberId" raw))),
    raw.filter fun entry => entry.1 ≠ "kind" ∧ entry.1 ≠ "subscriberId"⟩

/-- `name && name.toLowerCase() !== "system"`, and the name; only a text has `toLowerCase`. -/
def ownerName : JsValue → Option (Option String)
  | .str name => some (if name ≠ "" ∧ name.toLower ≠ "system" then some name else none)
  | value => if value.isTruthy then none else some none

def namesTarget (agent team role : Option String) : Bool :=
  (truthy agent).isSome || (truthy team).isSome || (truthy role).isSome

/-- A project stands in with its owner; what is thrown on the way is caught. -/
def resolveRouting (ctx : ToolContext) (input : AOFDispatchInput) : RoutingPatch :=
  let asked : RoutingPatch := { role := input.role, team := input.team, agent := input.agent }
  if namesTarget input.agent input.team input.role then asked
  else
    match (truthy (input.project.or ctx.projectId)).bind ctx.manifest with
    | none => asked
    | some owner =>
        match ownerName owner.lead with
        | none => asked
        | some (some lead) => { asked with agent := some lead }
        | some none =>
            match ownerName owner.team with
            | some (some team) => { asked with team := some team }
            | _ => asked

def hasTarget (routing : RoutingPatch) : Bool :=
  namesTarget routing.agent routing.team routing.role

def MAX_DISPATCH_TIMEOUT_MS : Int := 4 * 60 * 60 * 1000

def cappedTimeout : JsNumber → Option JsNumber
  | .finite ms =>
      if 0 < ms then some (.finite (min ⌊ms⌋ MAX_DISPATCH_TIMEOUT_MS : Int)) else none
  | _ => none

def dispatchMetadata (input : AOFDispatchInput) : Dict String JsValue :=
  let given := input.metadata.getD .empty
  let tagged := match input.tags with
    | some tags => given.set "tags" (.arr (tags.map .str))
    | none => given
  match input.timeoutMs.bind cappedTimeout with
  | some ms => tagged.set "timeoutMs" (.num ms)
  | none => tagged

def dispatchBrief (input : AOFDispatchInput) : String :=
  (truthy (some input.brief)).getD ((truthy input.description).getD "")

def missingDependencies : List String → Tool (List String)
  | [] => pure []
  | blockerId :: rest => do
      let blocker ← get blockerId
      let missing ← missingDependencies rest
      pure (if blocker.isNone then blockerId :: missing else missing)

def validateSubscriberAgent (ctx : ToolContext) (subscriberId : String) : Tool Unit :=
  match truthy ctx.orgChartPath with
  | none => pure ()
  | some path =>
      if (ctx.orgChart path).any (·.contains subscriberId) then pure () else Command.throw

def dispatchActor (input : AOFDispatchInput) : String := input.actor.getD "unknown"

def dispatchOpts (input : AOFDispatchInput) (title : Title) (routing : RoutingPatch) : CreateOpts :=
  let metadata := dispatchMetadata input
  { title
    body := jsTrim (dispatchBrief input)
    priority := some (normalizePriority input.priority)
    routing
    dependsOn := input.dependsOn
    metadata := if metadata.keys = [] then none else some metadata
    initialStatus := some .ready
    rest := ("createdBy", .str (dispatchActor input)) ::
      (input.parentId.map fun parentId => ("parentId", JsValue.str parentId)).toList }

def subscribeAtDispatch (ctx : ToolContext) (input : AOFDispatchInput) (draws : Draws)
    (taskId : String) : Tool (Option String) :=
  match input.subscribe with
  | none => pure none
  | some granularity => do
      let subscriberId := dispatchActor input
      validateSubscriberAgent ctx subscriberId
      let existing ← listActive taskId
      match existing.find? fun sub =>
        sub.subscriberId = subscriberId ∧ sub.granularity = granularity with
      | some duplicate => pure (some duplicate.id)
      | none => do
          let id ← addSubscription taskId
            { id := draws.subscriptionId, subscriberId, granularity, createdAt := draws.now }
          pure (some id)

def deliverySubscription (draws : Draws) (delivery : CompletionDelivery) : Subscription where
  id := draws.notificationSubscriptionId
  subscriberId := delivery.subscriberId.getD s!"notify:{delivery.kind}"
  granularity := .completion
  createdAt := draws.now
  delivery := some delivery

def notifyAtDispatch (draws : Draws) (taskId : String) :
    Option CompletionDelivery → Tool (Option String)
  | none => pure none
  | some delivery => do
      let id ← addSubscription taskId (deliverySubscription draws delivery)
      pure (some id)

/-- The delivery that is asked for; the outer option is empty if its kind is. -/
def completionDelivery (input : AOFDispatchInput) : Option (Option CompletionDelivery) :=
  match input.notifyOnCompletion with
  | some (.delivery raw) => (normalizeCompletionDelivery raw).map some
  | _ => some none

def createAndSubscribe (ctx : ToolContext) (input : AOFDispatchInput) (draws : Draws)
    (opts : CreateOpts) (delivery : Option CompletionDelivery) : Tool AOFDispatchResult := do
  let (taskId, document) ← create opts input.parentId draws 1000 0
  Command.modify fun state => { state with
    events := state.events ++ [⟨dispatchActor input, taskId, document.title, document.priority,
      document.routing⟩] }
  let subscriptionId ← subscribeAtDispatch ctx input draws taskId
  let notificationSubscriptionId ← notifyAtDispatch draws taskId delivery
  pure ⟨taskId, document.status, subscriptionId, notificationSubscriptionId⟩

def aofDispatch (ctx : ToolContext) (input : AOFDispatchInput) (draws : Draws) :
    Tool AOFDispatchResult :=
  if htitle : jsTrim input.title = "" then Command.throw
  else if jsTrim (dispatchBrief input) = "" then Command.throw
  else if ¬hasTarget (resolveRouting ctx input) then Command.throw
  else do
    let missing ← missingDependencies (input.dependsOn.getD [])
    if missing ≠ [] then Command.throw
    else
      match completionDelivery input with
      | none => Command.throw
      | some delivery =>
          createAndSubscribe ctx input draws
            (dispatchOpts input ⟨jsTrim input.title, htitle⟩ (resolveRouting ctx input)) delivery

end Aof.ProjectTools
