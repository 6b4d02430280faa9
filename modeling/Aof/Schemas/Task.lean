import Aof.Dispatch.DagConditionEvaluator

/-!
# Task schema

Tasks, their lifecycle and the results of their runs, from `schemas/task.ts` and
`schemas/run-result.ts`.  Only the fields that some modelled function reads are kept, and times are
milliseconds.
-/

namespace Aof

inductive TaskStatus where
  | backlog
  | ready
  | inProgress
  | blocked
  | review
  | done
  | cancelled
  | deadletter
  deriving DecidableEq, Repr

def TaskStatus.toString : TaskStatus → String
  | backlog => "backlog"
  | ready => "ready"
  | inProgress => "in-progress"
  | blocked => "blocked"
  | review => "review"
  | done => "done"
  | cancelled => "cancelled"
  | deadletter => "deadletter"

def VALID_TRANSITIONS : TaskStatus → List TaskStatus
  | .backlog => [.ready, .blocked, .cancelled]
  | .ready => [.inProgress, .blocked, .deadletter, .cancelled]
  | .inProgress => [.review, .ready, .blocked, .deadletter, .cancelled]
  | .blocked => [.ready, .deadletter, .cancelled]
  | .review => [.done, .inProgress, .blocked, .cancelled]
  | .done => []
  | .cancelled => []
  | .deadletter => [.ready]

def isValidTransition (source target : TaskStatus) : Bool :=
  (VALID_TRANSITIONS source).contains target

inductive TaskPriority where
  | critical
  | high
  | normal
  | low
  deriving DecidableEq, Repr

def TaskPriority.toString : TaskPriority → String
  | critical => "critical"
  | high => "high"
  | normal => "normal"
  | low => "low"

structure TaskLease where
  agent : String
  expiresAt : Nat
  deriving DecidableEq, Repr

structure TaskRouting where
  role : Option String := none
  team : Option String := none
  agent : Option String := none
  tags : List String := []
  workflow : Option String := none
  deriving DecidableEq, Repr

def TaskRouting.toObject (routing : TaskRouting) : JsObject :=
  let field (name : String) (value : Option String) :=
    (value.map fun text => (name, JsValue.str text)).toList
  field "role" routing.role ++ field "team" routing.team ++ field "agent" routing.agent ++
    [("tags", .arr (routing.tags.map .str))] ++ field "workflow" routing.workflow

/-- The entries of the open `metadata` record that the program reads. -/
structure TaskMetadata where
  reviewRequired : Option Bool := none
  dispatchFailures : Option Nat := none
  errorClass : Option String := none
  blockReason : Option String := none
  retryCount : Option Nat := none
  sessionId : Option String := none
  deriving DecidableEq, Repr

structure Task where
  id : String
  status : TaskStatus
  priority : TaskPriority := .normal
  routing : TaskRouting := {}
  lease : Option TaskLease := none
  parentId : Option String := none
  dependsOn : List String := []
  resource : Option String := none
  metadata : TaskMetadata := {}
  workflow : Option TaskWorkflow := none

inductive CompletionOutcome where
  | done
  | blocked
  | needsReview
  | partiallyDone
  deriving DecidableEq, Repr

/-- `run_result.json`; the deliverables, tests and references in it are not read again. -/
structure RunResult where
  taskId : String
  agentId : String
  outcome : CompletionOutcome
  notes : String
  deriving DecidableEq, Repr

end Aof
