import Aof.Dispatch.DagConditionEvaluator

/-!
# DAG evaluator

The processing of one hop event against a definition and a state, from
`dispatch/dag-evaluator.ts`: rejection cascades, skip cascades, conditions, joins and completion.
The current time is an argument, and a `TypeError` of the source is `none`.
-/

namespace Aof

inductive HopOutcome where
  | complete
  | failed
  | skipped
  | rejected
  deriving DecidableEq, Repr

structure HopEvent where
  hopId : String
  outcome : HopOutcome
  result : Option JsObject := none
  deriving Repr

structure HopTransition where
  hopId : String
  fromStatus : Option HopStatus
  toStatus : HopStatus
  reason : Option String := none
  deriving DecidableEq, Repr

structure DAGEvaluationResult where
  state : WorkflowState
  changes : List HopTransition
  readyHops : List String
  dagStatus : Option WorkflowStatus := none
  taskStatus : Option String := none

def DEFAULT_MAX_REJECTIONS : Nat := 3

abbrev IsTerminal (status : Option HopStatus) : Prop :=
  status = some .complete ∨ status = some .skipped ∨ status = some .failed

abbrev IsNonSuccess (status : Option HopStatus) : Prop :=
  status = some .skipped ∨ status = some .failed

abbrev IsSatisfied (status : Option HopStatus) : Prop :=
  status = some .complete ∨ status = some .skipped

/-- `allPredecessorsTerminalNonSuccess` of the source. -/
abbrev Blocked (hop : Hop) (statuses : Statuses) : Prop :=
  ∀ dep ∈ hop.dependsOn, IsNonSuccess (statuses dep)

/-- `allTerminal` of the source. -/
abbrev AllTerminal (hop : Hop) (statuses : Statuses) : Prop :=
  ∀ dep ∈ hop.dependsOn, IsTerminal (statuses dep)

/-- The join of a hop: `anyComplete` or `allSatisfied` of the source. -/
def JoinSatisfied (hop : Hop) (statuses : Statuses) : Prop :=
  match hop.joinType with
  | .any => ∃ dep ∈ hop.dependsOn, statuses dep = some .complete
  | .all => ∀ dep ∈ hop.dependsOn, IsSatisfied (statuses dep)

instance (hop : Hop) (statuses : Statuses) : Decidable (JoinSatisfied hop statuses) :=
  match hjoin : hop.joinType with
  | .any => decidable_of_iff (∃ dep ∈ hop.dependsOn, statuses dep = some .complete)
      (by simp only [JoinSatisfied, hjoin])
  | .all => decidable_of_iff (∀ dep ∈ hop.dependsOn, IsSatisfied (statuses dep))
      (by simp only [JoinSatisfied, hjoin])

/-- `state.hops` and `changes`, the two accumulators of an evaluation. -/
structure WorkingCopy where
  hops : Dict String HopState
  changes : List HopTransition

def buildDownstreamIndex (definition : WorkflowDefinition) : Dict String (List String) :=
  definition.hops.foldl
    (fun index hop => hop.dependsOn.foldl
      (fun index dep => index.set dep ((index.get? dep).getD [] ++ [hop.id]))
      (if index.has hop.id then index else index.set hop.id []))
    Dict.empty

def WorkingCopy.skip (copy : WorkingCopy) (hopId : String) (hopState : HopState)
    (timestamp reason : String) : WorkingCopy :=
  { hops := copy.hops.set hopId
      { hopState with status := .skipped, completedAt := some timestamp }
    changes := copy.changes ++
      [{ hopId, fromStatus := some .pending, toStatus := .skipped, reason := some reason }] }

/-- One turn of the loop over the downstream hops; `recurse` is the call on a skipped one. -/
def cascadeVisit (definition : WorkflowDefinition) (timestamp : String)
    (recurse : String → WorkingCopy → WorkingCopy) (copy : WorkingCopy) (hopId : String) :
    WorkingCopy :=
  match copy.hops.get? hopId, definition.findHop hopId with
  | some hopState, some hop =>
      if hopState.status = .pending ∧ Blocked hop (statusOf copy.hops) then
        recurse hopId (copy.skip hopId hopState timestamp "cascade")
      else copy
  | _, _ => copy

/-- The recursion of `cascadeSkips`, with the depth as fuel: each level skips one more pending
hop. -/
def cascadeSkipsAux (definition : WorkflowDefinition)
    (downstreamIndex : Dict String (List String)) (timestamp : String) :
    Nat → String → WorkingCopy → WorkingCopy
  | 0, _, copy => copy
  | fuel + 1, startHopId, copy =>
      ((downstreamIndex.get? startHopId).getD []).foldl
        (cascadeVisit definition timestamp
          (cascadeSkipsAux definition downstreamIndex timestamp fuel)) copy

def cascadeSkips (definition : WorkflowDefinition) (copy : WorkingCopy)
    (downstreamIndex : Dict String (List String)) (startHopId timestamp : String) : WorkingCopy :=
  cascadeSkipsAux definition downstreamIndex timestamp (definition.hops.length + 1) startHopId
    copy

def evaluateEligibleCondition (condContext : JsValue) (task : TaskMeta) (timestamp : String)
    (copy : WorkingCopy) (hop : Hop) : WorkingCopy :=
  match copy.hops.get? hop.id, hop.condition with
  | some hopState, some condition =>
      if hopState.status = .pending ∧ AllTerminal hop (statusOf copy.hops) ∧
          evaluateCondition ⟨condContext, statusOf copy.hops, task⟩ condition = false then
        copy.skip hop.id hopState timestamp "condition"
      else copy
  | _, _ => copy

/-- One pass over the hops, in array order, on the copy that it changes. -/
def evaluateNewlyEligibleConditions (definition : WorkflowDefinition) (copy : WorkingCopy)
    (condContext : JsValue) (task : TaskMeta) (timestamp : String) : WorkingCopy :=
  definition.hops.foldl (evaluateEligibleCondition condContext task timestamp) copy

def determineReadyHops (definition : WorkflowDefinition) (hops : Dict String HopState) :
    List String :=
  (definition.hops.filter fun hop =>
    statusOf hops hop.id = some .pending ∧ hop.isRoot = false ∧
      JoinSatisfied hop (statusOf hops)).map Hop.id

def checkDAGCompletion (hops : Dict String HopState) : Option WorkflowStatus :=
  let statuses := hops.values.map HopState.status
  if ∀ status ∈ statuses, IsTerminal (some status) then
    if .failed ∈ statuses then some .failed else some .complete
  else none

/-- A reset hop keeps nothing but its new status; the rejected one carries its count. -/
def resetHopState (rejectedHopId : String) (currentCount : Nat) (hopId : String)
    (newStatus : HopStatus) : HopState :=
  { status := newStatus
    rejectionCount := if hopId = rejectedHopId then some currentCount else none }

def resetForOrigin (rejectedHopId : String) (currentCount : Nat) (copy : WorkingCopy)
    (hop : Hop) : Option WorkingCopy := do
  let prev ← copy.hops.get? hop.id
  let newStatus : HopStatus := if hop.isRoot then .ready else .pending
  some
    { hops := copy.hops.set hop.id (resetHopState rejectedHopId currentCount hop.id newStatus)
      changes :=
        if prev.status ≠ newStatus ∨ hop.id = rejectedHopId then
          copy.changes ++
            [{ hopId := hop.id, fromStatus := some prev.status, toStatus := newStatus,
               reason := some "rejection_cascade_origin" }]
        else copy.changes }

def resetAllHopsForOrigin (definition : WorkflowDefinition) (copy : WorkingCopy)
    (rejectedHopId : String) (currentCount : Nat) : Option WorkingCopy :=
  definition.hops.foldlM (resetForOrigin rejectedHopId currentCount) copy

def resetSet (rejectedHop : Hop) : List String :=
  (rejectedHop.id :: rejectedHop.dependsOn).eraseDups

/-- The status of a reset hop: ready when no predecessor is itself reset or unsatisfied. -/
def resetStatus (resetSet : List String) (statuses : Statuses) (hop : Hop) : HopStatus :=
  if hop.isRoot then .ready
  else if ∀ dep ∈ hop.dependsOn, dep ∉ resetSet ∧ IsSatisfied (statuses dep) then .ready
  else .pending

def resetPredecessor (definition : WorkflowDefinition) (resetSet : List String)
    (rejectedHopId : String) (currentCount : Nat) (copy : WorkingCopy) (hopId : String) :
    Option WorkingCopy := do
  let hop ← definition.findHop hopId
  let prev ← copy.hops.get? hopId
  let newStatus := resetStatus resetSet (statusOf copy.hops) hop
  some
    { hops := copy.hops.set hopId (resetHopState rejectedHopId currentCount hopId newStatus)
      changes := copy.changes ++
        [{ hopId, fromStatus := some prev.status, toStatus := newStatus,
           reason := some "rejection_cascade_predecessors" }] }

def resetPredecessorHops (definition : WorkflowDefinition) (copy : WorkingCopy)
    (rejectedHopId : String) (currentCount : Nat) : Option WorkingCopy := do
  let rejectedHop ← definition.findHop rejectedHopId
  (resetSet rejectedHop).foldlM
    (resetPredecessor definition (resetSet rejectedHop) rejectedHopId currentCount) copy

/-- Completion of the DAG and the result record, the last steps of both branches. -/
def finishEvaluation (state : WorkflowState) (copy : WorkingCopy) (readyHops : List String)
    (timestamp : String) : DAGEvaluationResult :=
  let dagStatus := checkDAGCompletion copy.hops
  { state :=
      { state with
        hops := copy.hops
        status := dagStatus.getD state.status
        completedAt := if dagStatus.isSome then some timestamp else state.completedAt }
    changes := copy.changes
    readyHops
    dagStatus
    taskStatus := dagStatus.bind fun status =>
      match status with
      | .complete => some "done"
      | .failed => some "failed"
      | _ => none }

def tripCircuitBreaker (definition : WorkflowDefinition) (hops : Dict String HopState)
    (hopId : String) (currentCount : Nat) (timestamp : String) : WorkingCopy :=
  cascadeSkips definition
    { hops := hops.set hopId
        { (hops.get? hopId).getD { status := .failed } with
          status := .failed
          completedAt := some timestamp
          rejectionCount := some currentCount }
      changes := [{ hopId, fromStatus := statusOf hops hopId, toStatus := .failed,
                    reason := some "circuit_breaker" }] }
    (buildDownstreamIndex definition) hopId timestamp

def nextRejectionCount (hops : Dict String HopState) (hopId : String) : Nat :=
  ((hops.get? hopId).bind HopState.rejectionCount).getD 0 + 1

def applyRejection (definition : WorkflowDefinition) (hops : Dict String HopState)
    (hopId : String) (timestamp : String) : Option WorkingCopy :=
  let currentCount := nextRejectionCount hops hopId
  if currentCount ≥ DEFAULT_MAX_REJECTIONS then
    some (tripCircuitBreaker definition hops hopId currentCount timestamp)
  else do
    let hopDef ← definition.findHop hopId
    match hopDef.rejectionStrategy.getD .origin with
    | .origin => resetAllHopsForOrigin definition ⟨hops, []⟩ hopId currentCount
    | .predecessors => resetPredecessorHops definition ⟨hops, []⟩ hopId currentCount

def evaluateRejection (definition : WorkflowDefinition) (state : WorkflowState) (hopId : String)
    (timestamp : String) : Option DAGEvaluationResult := do
  let copy ← applyRejection definition state.hops hopId timestamp
  let readyHops := determineReadyHops definition copy.hops
  let alreadyReady := (definition.hops.filter fun hop =>
    statusOf copy.hops hop.id = some .ready ∧ hop.id ∉ readyHops).map Hop.id
  some (finishEvaluation state copy (readyHops ++ alreadyReady.eraseDups) timestamp)

def HopOutcome.toStatus : HopOutcome → HopStatus
  | complete => .complete
  | failed => .failed
  | skipped => .skipped
  | rejected => .failed

/-- Step 2: the event itself. -/
def recordHopEvent (hops : Dict String HopState) (event : HopEvent) (timestamp : String) :
    Dict String HopState :=
  hops.set event.hopId
    { (hops.get? event.hopId).getD { status := event.outcome.toStatus } with
      status := event.outcome.toStatus
      completedAt := some timestamp
      result := event.result }

/-- Steps 2 and 3: the event, and the skips that it causes. -/
def applyHopEvent (definition : WorkflowDefinition) (hops : Dict String HopState)
    (event : HopEvent) (timestamp : String) : WorkingCopy :=
  let copy : WorkingCopy :=
    { hops := recordHopEvent hops event timestamp
      changes := [{ hopId := event.hopId, fromStatus := statusOf hops event.hopId,
                    toStatus := event.outcome.toStatus }] }
  if event.outcome ≠ .complete then
    cascadeSkips definition copy (buildDownstreamIndex definition) event.hopId timestamp
  else copy

/-- Step 4, with the results as they are after the event. -/
def applyConditions (definition : WorkflowDefinition) (state : WorkflowState)
    (copy : WorkingCopy) (task : TaskMeta) (timestamp : String) : WorkingCopy :=
  evaluateNewlyEligibleConditions definition copy
    (buildConditionContext { state with hops := copy.hops } task) task timestamp

/-- Step 5: a pending hop becomes `ready`. -/
def WorkingCopy.promote (copy : WorkingCopy) (hopId : String) : WorkingCopy :=
  { hops := copy.hops.set hopId
      { (copy.hops.get? hopId).getD { status := .ready } with status := .ready }
    changes := copy.changes ++ [{ hopId, fromStatus := some .pending, toStatus := .ready }] }

def evaluateDAG (definition : WorkflowDefinition) (state : WorkflowState) (event : HopEvent)
    (task : TaskMeta) (timestamp : String) : Option DAGEvaluationResult :=
  if event.outcome = .rejected then
    evaluateRejection definition state event.hopId timestamp
  else
    let copy := applyConditions definition state
      (applyHopEvent definition state.hops event timestamp) task timestamp
    let readyHops := determineReadyHops definition copy.hops
    some (finishEvaluation state (readyHops.foldl WorkingCopy.promote copy) readyHops timestamp)

end Aof
