import Aof.Dispatch.Scheduler

/-!
# Timeouts of hops

The durations of `dispatch/duration-parser.ts` and what `checkHopTimeouts` of
`dispatch/escalation.ts` reports.  Times and durations are whole milliseconds.
-/

namespace Aof

/-- The groups of `/^(\d+)([mhd])$/`. -/
def durationMatch (duration : String) : Option (List Char × Char) :=
  match duration.toList.reverse with
  | [] => none
  | unit :: digits =>
      if (unit = 'm' ∨ unit = 'h' ∨ unit = 'd') ∧ digits ≠ [] ∧ digits.all Char.isDigit then
        some (digits.reverse, unit)
      else none

/-- `parseInt(digits, 10)` -/
def parseNumeral (digits : List Char) : Nat := Nat.ofDigitChars 10 digits 0

def parseDuration (duration : String) : Option Nat :=
  match durationMatch duration with
  | none => none
  | some (digits, unit) =>
      let value := parseNumeral digits
      -- zero is rejected here, although it has the form of a duration
      if value ≤ 0 then none
      else if unit = 'm' then some (value * 60 * 1000)
      else if unit = 'h' then some (value * 60 * 60 * 1000)
      else if unit = 'd' then some (value * 24 * 60 * 60 * 1000)
      else none

/-- `Date.now()`, and `new Date(_).getTime()` without `NaN`. -/
structure Clock where
  now : Int
  dateMs : String → Option Int

def startTime (clock : Clock) (hopState : HopState) : Option Int :=
  (truthy hopState.startedAt).bind clock.dateMs

def Task.hopState (task : Task) (hopId : String) : Option HopState :=
  task.workflow.bind fun workflow => workflow.state.hops.get? hopId

def overdue (clock : Clock) (task : Task) (hop : Hop) : Option Int :=
  match task.hopState hop.id with
  | none => none
  | some hopState =>
      if hopState.status ≠ .dispatched then none
      else
        match truthy hop.timeout, startTime clock hopState with
        | some timeout, some startedAt =>
            match parseDuration timeout with
            | none => none
            | some timeoutMs =>
                let elapsed := clock.now - startedAt
                if elapsed > timeoutMs then some elapsed else none
        | _, _ => none

structure TimeoutAlert where
  taskId : String
  hopId : String
  elapsedMs : Int
  agent : Option String
  deriving DecidableEq, Repr

/-- A hop that is escalated, or would be but for a dry run, is reported with its new role. -/
def timeoutAlert (task : Task) (hop : Hop) (elapsed : Int) : TimeoutAlert where
  taskId := task.id
  hopId := hop.id
  elapsedMs := elapsed
  agent :=
    match task.hopState hop.id with
    | none => none
    | some hopState => if hopState.escalated = some true then none else truthy hop.escalateTo

structure TimeoutScan where
  task : Task
  alerts : List TimeoutAlert

/-- One hop; the clock decides here what `PollInput` has an answer for. -/
def reportHopTimeout (clock : Clock) (input : PollInput) (scan : TimeoutScan) (hop : Hop) :
    Command Store TimeoutScan :=
  match overdue clock scan.task hop with
  | none => pure scan
  | some elapsed => do
      let task ← checkHopTimeout { input with hopTimedOut := fun _ _ => true } scan.task hop
      pure ⟨task, scan.alerts ++ [timeoutAlert scan.task hop elapsed]⟩

def reportTaskTimeouts (clock : Clock) (input : PollInput) (alerts : List TimeoutAlert)
    (task : Task) : Command Store (List TimeoutAlert) := do
  let hops := (task.workflow.map fun workflow => workflow.definition.hops).getD []
  let scan ← hops.foldlM (reportHopTimeout clock input) ⟨task, alerts⟩
  pure scan.alerts

/-- `checkHopTimeouts` with the alerts that it returns. -/
def reportHopTimeouts (clock : Clock) (input : PollInput) :
    Command Store (List TimeoutAlert) := do
  let tasks ← Store.listByStatus .inProgress
  tasks.foldlM (reportTaskTimeouts clock input) []

end Aof

/-!
## Runs with escalations

One workflow under hop dispatches, timeouts, agents that leave and outcomes that are evaluated, with
the sessions that are spawned on the way.
-/

namespace Aof

/-- What happens to the hops; the program keeps no such record. -/
inductive SessionEvent where
  | spawned (hopId role : String)
  | escalated (hopId : String)
  | reset (hopId : String)
  deriving DecidableEq, Repr

structure EscalationRun where
  workflow : WorkflowState
  trace : List SessionEvent := []

inductive EscalationMove where
  | dispatch (hopId : String) (spawn : SpawnResult) (timestamp : String)
  | timeout (hopId : String) (spawn : Option SpawnResult) (timestamp : String)
  | exit (hopId timestamp : String)
  | evaluate (event : HopEvent) (task : TaskMeta) (timestamp : String)

def escalatable (definition : WorkflowDefinition) (state : WorkflowState) (hopId : String) :
    Option (HopState × String) :=
  match state.hops.get? hopId, (definition.findHop hopId).bind Hop.escalateTo with
  | some hopState, some escalateToRole =>
      if hopState.status ≠ .dispatched ∨ hopState.escalated = some true then none
      else some (hopState, escalateToRole)
  | _, _ => none

def escalateHop (state : WorkflowState) (hopId : String) (hopState : HopState)
    (escalateToRole : String) (spawn : Option SpawnResult) (timestamp : String) : WorkflowState :=
  { state with
    hops := state.hops.set hopId (escalatedHop hopState escalateToRole spawn timestamp) }

theorem escalateHopTimeout_eq {task : Task} {workflow : TaskWorkflow}
    (hworkflow : task.workflow = some workflow) (hopId : String) (spawn : Option SpawnResult)
    (timestamp : String) : escalateHopTimeout task hopId spawn timestamp =
      match escalatable workflow.definition workflow.state hopId with
      | none => pure task
      | some (hopState, escalateToRole) => persistWorkflowState task
          (escalateHop workflow.state hopId hopState escalateToRole spawn timestamp) := by
  unfold escalateHopTimeout escalatable
  rw [hworkflow]
  dsimp only
  cases workflow.state.hops.get? hopId with
  | none => rfl
  | some hopState =>
      cases (workflow.definition.findHop hopId).bind Hop.escalateTo with
      | none => rfl
      | some escalateToRole =>
          dsimp only
          by_cases hdone : hopState.status ≠ .dispatched ∨ hopState.escalated = some true
          · rw [if_pos hdone, if_pos hdone]
          · rw [if_neg hdone, if_neg hdone]
            rfl

def escalationSession (hopId escalateToRole : String) : Option SpawnResult → List SessionEvent
  | some (.success _) => [.spawned hopId escalateToRole]
  | _ => []

def resetBy (definition : WorkflowDefinition) (state : WorkflowState) (event : HopEvent) :
    List String :=
  if event.outcome = .rejected ∧
      nextRejectionCount state.hops event.hopId < DEFAULT_MAX_REJECTIONS then
    match definition.findHop event.hopId with
    | none => []
    | some hop =>
        match hop.rejectionStrategy.getD .origin with
        | .origin => definition.hops.map Hop.id
        | .predecessors => resetSet hop
  else []

/-- The dispatch takes any hop that its caller names, and addresses its role. -/
def escalationStep (definition : WorkflowDefinition) (run : EscalationRun) :
    EscalationMove → Option EscalationRun
  | .dispatch hopId spawn timestamp =>
      match definition.findHop hopId, spawn with
      | some hop, .success sessionId =>
          some
            { workflow := markDispatched hop run.workflow sessionId timestamp
              trace := .spawned hop.id hop.role :: run.trace }
      | _, _ => some run
  | .timeout hopId spawn timestamp =>
      match escalatable definition run.workflow hopId with
      | none => some run
      | some (hopState, escalateToRole) =>
          some
            { workflow :=
                escalateHop run.workflow hopId hopState escalateToRole spawn timestamp
              trace := escalationSession hopId escalateToRole spawn ++
                .escalated hopId :: run.trace }
  | .exit hopId timestamp =>
      if statusOf run.workflow.hops hopId = some .dispatched then
        some { run with workflow := enforceFailure run.workflow hopId timestamp }
      else some run
  | .evaluate event task timestamp =>
      (workflowStep definition run.workflow (.evaluate event task timestamp)).map fun next =>
        { workflow := next
          trace := (resetBy definition run.workflow event).map .reset ++ run.trace }

def startEscalationRun (definition : WorkflowDefinition) : EscalationRun where
  workflow := initializeWorkflowState definition

end Aof
