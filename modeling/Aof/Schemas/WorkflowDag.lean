import Mathlib.Algebra.GroupWithZero.Nat
import Aof.Lib.JsValue
import Aof.Lib.Kahn

/-!
# Workflow DAG schema

Hop definitions, execution state, condition expressions and the structural validation of
`schemas/workflow-dag.ts`.
-/

namespace Aof

/-- The JSON condition language; an absent `value` of `eq` and `neq` is `undefined`. -/
inductive ConditionExpr where
  | eq (field : String) (value : JsValue)
  | neq (field : String) (value : JsValue)
  | gt (field : String) (value : JsNumber)
  | gte (field : String) (value : JsNumber)
  | lt (field : String) (value : JsNumber)
  | lte (field : String) (value : JsNumber)
  | isIn (field : String) (value : List JsValue)
  | hasTag (value : String)
  | hopStatus (hop status : String)
  | and (conditions : List ConditionExpr)
  | or (conditions : List ConditionExpr)
  | not (condition : ConditionExpr)
  | true
  | false
  deriving Repr

inductive JoinType where
  | all
  | any
  deriving DecidableEq, Repr

inductive RejectionStrategy where
  | origin
  | predecessors
  deriving DecidableEq, Repr

structure Hop where
  id : String
  role : String
  dependsOn : List String := []
  joinType : JoinType := .all
  autoAdvance : Bool := Bool.true
  condition : Option ConditionExpr := none
  description : Option String := none
  canReject : Bool := Bool.false
  rejectionStrategy : Option RejectionStrategy := none
  timeout : Option String := none
  escalateTo : Option String := none
  deriving Repr

structure WorkflowDefinition where
  name : String
  hops : List Hop
  deriving Repr

/-- `definition.hops.find((h) => h.id === id)` -/
def WorkflowDefinition.findHop (definition : WorkflowDefinition) (id : String) : Option Hop :=
  definition.hops.find? fun hop => hop.id = id

inductive HopStatus where
  | pending
  | ready
  | dispatched
  | complete
  | failed
  | skipped
  deriving DecidableEq, Repr

def HopStatus.toString : HopStatus → String
  | pending => "pending"
  | ready => "ready"
  | dispatched => "dispatched"
  | complete => "complete"
  | failed => "failed"
  | skipped => "skipped"

structure HopState where
  status : HopStatus
  startedAt : Option String := none
  completedAt : Option String := none
  agent : Option String := none
  correlationId : Option String := none
  result : Option JsObject := none
  rejectionCount : Option Nat := none
  escalated : Option Bool := none
  deriving Repr

inductive WorkflowStatus where
  | pending
  | running
  | complete
  | failed
  deriving DecidableEq, Repr

structure WorkflowState where
  status : WorkflowStatus
  hops : Dict String HopState
  startedAt : Option String := none
  completedAt : Option String := none

structure TaskWorkflow where
  definition : WorkflowDefinition
  state : WorkflowState

def MAX_CONDITION_DEPTH : Nat := 5

def MAX_CONDITION_NODES : Nat := 50

structure ConditionComplexity where
  maxDepth : Nat
  totalNodes : Nat
  deriving DecidableEq, Repr

mutual

def measureConditionComplexity : ConditionExpr → Nat → ConditionComplexity
  | .and conditions, depth => measureChildren conditions depth ⟨depth, 1⟩
  | .or conditions, depth => measureChildren conditions depth ⟨depth, 1⟩
  | .not condition, depth =>
      let result := measureConditionComplexity condition (depth + 1)
      ⟨result.maxDepth, 1 + result.totalNodes⟩
  | _, depth => ⟨depth, 1⟩

/-- The loop over the children of an `and` or an `or`. -/
def measureChildren : List ConditionExpr → Nat → ConditionComplexity → ConditionComplexity
  | [], _, acc => acc
  | child :: rest, depth, acc =>
      let result := measureConditionComplexity child (depth + 1)
      measureChildren rest depth
        ⟨if result.maxDepth > acc.maxDepth then result.maxDepth else acc.maxDepth,
          acc.totalNodes + result.totalNodes⟩

end

/-- The group of `/^hops\.([^.]+)/`. -/
def hopsFieldMatch (field : String) : Option String :=
  match field.toList with
  | 'h' :: 'o' :: 'p' :: 's' :: '.' :: rest =>
      let segment := rest.takeWhile (· ≠ '.')
      if segment = [] then none else some (String.ofList segment)
  | _ => none

mutual

def collectHopReferences : ConditionExpr → List String
  | .hopStatus hop _ => [hop]
  | .and conditions => collectChildren conditions
  | .or conditions => collectChildren conditions
  | .not condition => collectHopReferences condition
  | .eq field _ | .neq field _ | .isIn field _ => (hopsFieldMatch field).toList
  | .gt field _ | .gte field _ | .lt field _ | .lte field _ => (hopsFieldMatch field).toList
  | .hasTag _ | .true | .false => []

def collectChildren : List ConditionExpr → List String
  | [] => []
  | child :: rest => collectHopReferences child ++ collectChildren rest

end

/-- `/^\d+[mhd]$/` -/
def timeoutRegex (timeout : String) : Bool :=
  match timeout.toList.reverse with
  | [] => Bool.false
  | unit :: digits =>
      (unit == 'm' || unit == 'h' || unit == 'd') && digits ≠ [] &&
        digits.all fun c => '0' ≤ c && c ≤ '9'

/-- The uniqueness check; `seen` is the set of ids met so far. -/
def duplicateErrors : List String → List Hop → List String
  | _, [] => []
  | seen, hop :: rest =>
      (if hop.id ∈ seen then [s!"Duplicate hop ID: \"{hop.id}\""] else []) ++
        duplicateErrors (hop.id :: seen) rest

/-- `adjacency`, after both loops over the hops. -/
def buildAdjacency (hops : List Hop) : Dict String (List String) :=
  hops.foldl
    (fun adjacency hop => hop.dependsOn.foldl
      (fun adjacency dep =>
        match adjacency.get? dep with
        | some neighbors => adjacency.set dep (neighbors ++ [hop.id])
        | none => adjacency) adjacency)
    (hops.foldl (fun adjacency hop => adjacency.set hop.id []) Dict.empty)

/-- `inDegree`, after both loops over the hops; `known` are the keys of `adjacency`. -/
def buildInDegree (hops : List Hop) : Dict String Int :=
  let known := hops.map Hop.id
  hops.foldl
    (fun inDegree hop => hop.dependsOn.foldl
      (fun inDegree dep =>
        if dep ∈ known then inDegree.set hop.id ((inDegree.get? hop.id).getD 0 + 1)
        else inDegree) inDegree)
    (hops.foldl (fun inDegree hop => inDegree.set hop.id 0) Dict.empty)

/-- Kahn's algorithm, from the hops without predecessors.  Every hop is dequeued at most once, so
the number of hops is fuel enough for the loop. -/
def kahn (hops : List Hop) : Kahn.State String :=
  let adjacency := buildAdjacency hops
  let inDegree := buildInDegree hops
  Kahn.drain (fun id => (adjacency.get? id).getD []) hops.length
    { queue := (inDegree.entries.filter fun entry => entry.2 = 0).map Prod.fst
      inDegree := inDegree
      processed := 0 }

def cycleErrors (hops : List Hop) : List String :=
  let sorted := kahn hops
  if sorted.processed ≠ hops.length then
    let cycleHops := ", ".intercalate
      ((sorted.inDegree.entries.filter fun entry => entry.2 > 0).map Prod.fst)
    [s!"Cycle detected involving hops: {cycleHops}"]
  else []

/-- The breadth-first search: a queue of ids and the set of visited ones. -/
def reachableFrom (adjacency : Dict String (List String)) :
    Nat → List String → List String → List String
  | 0, _, visited => visited
  | _ + 1, [], visited => visited
  | fuel + 1, current :: queue, visited =>
      if current ∈ visited then reachableFrom adjacency fuel queue visited
      else
        let visited := current :: visited
        let neighbors := ((adjacency.get? current).getD []).filter (· ∉ visited)
        reachableFrom adjacency fuel (queue ++ neighbors) visited

/-- Each root is queued once and each edge queues its target at most once. -/
def unreachableErrors (hops : List Hop) : List String :=
  let rootHops := hops.filter fun hop => hop.dependsOn.length = 0
  if rootHops.length > 0 then
    let visited := reachableFrom (buildAdjacency hops)
      (hops.length + (hops.map fun hop => hop.dependsOn.length).sum) (rootHops.map Hop.id) []
    let unreachable := (hops.filter fun hop => hop.id ∉ visited).map Hop.id
    if unreachable.length > 0 then
      let names := ", ".intercalate unreachable
      [s!"Unreachable hops (not connected to any root): {names}"]
    else []
  else []

def conditionErrors (hop : Hop) : List String :=
  match hop.condition with
  | none => []
  | some condition =>
      let complexity := measureConditionComplexity condition 0
      let maxDepth := complexity.maxDepth
      let totalNodes := complexity.totalNodes
      (if maxDepth > MAX_CONDITION_DEPTH then
        [s!"Hop \"{hop.id}\" condition exceeds max nesting depth {MAX_CONDITION_DEPTH} " ++
          s!"(found: {maxDepth})"]
      else []) ++
      (if totalNodes > MAX_CONDITION_NODES then
        [s!"Hop \"{hop.id}\" condition exceeds max node count {MAX_CONDITION_NODES} " ++
          s!"(found: {totalNodes})"]
      else [])

def referenceErrors (hopIds : List String) (hop : Hop) : List String :=
  match hop.condition with
  | none => []
  | some condition =>
      ((collectHopReferences condition).filter (· ∉ hopIds)).map fun ref =>
        s!"Hop \"{hop.id}\" condition references non-existent hop \"{ref}\""

def timeoutErrors (hop : Hop) : List String :=
  match hop.timeout with
  | none => []
  | some timeout =>
      if timeoutRegex timeout then []
      else [s!"Invalid timeout format for hop \"{hop.id}\": \"{timeout}\" " ++
        "(expected: \"1h\", \"30m\", \"2d\", etc.)"]

def escalateToErrors (hop : Hop) : List String :=
  match hop.escalateTo with
  | none => []
  | some escalateTo =>
      if (JsString.trim escalateTo.toList).length = 0 then
        [s!"Hop \"{hop.id}\" has empty escalateTo role"]
      else []

def danglingErrors (hopIds : List String) (hop : Hop) : List String :=
  (hop.dependsOn.filter (· ∉ hopIds)).map fun dep =>
    s!"Hop \"{hop.id}\" depends on \"{dep}\" which does not exist"

def validateDAG (definition : WorkflowDefinition) : List String :=
  let hops := definition.hops
  let hopIds := hops.map Hop.id
  duplicateErrors [] hops ++
  hops.flatMap (danglingErrors hopIds) ++
  (if (hops.filter fun hop => hop.dependsOn.length = 0).length = 0 then
    ["No root hops found (all hops have dependsOn)"]
  else []) ++
  cycleErrors hops ++
  unreachableErrors hops ++
  hops.flatMap timeoutErrors ++
  hops.flatMap escalateToErrors ++
  hops.flatMap conditionErrors ++
  hops.flatMap (referenceErrors hopIds)

def Hop.isRoot (hop : Hop) : Bool := hop.dependsOn.isEmpty

def initializeWorkflowState (definition : WorkflowDefinition) : WorkflowState :=
  { status := .pending
    hops := definition.hops.foldl
      (fun hops hop => hops.set hop.id { status := if hop.isRoot then .ready else .pending })
      Dict.empty }

end Aof
