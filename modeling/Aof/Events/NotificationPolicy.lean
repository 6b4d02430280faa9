import Aof.Lib.JsValue
import Aof.Lib.Run

/-!
# The notification policy

`NotificationPolicyEngine.handleEvent` with the rules, the severities and the store of recent
notifications, from `events/notification-policy/`.  A notification is the template of the rule and
the event that fills it in; the audience of a rule is not read.
-/

namespace Aof

open StepSystem

def matchesClasses : List (Char → Bool) → List Char → Bool
  | [], [] => true
  | cls :: classes, c :: cs => cls c && matchesClasses classes cs
  | _, _ => false

theorem not_mem_of_matchesClasses {classes : List (Char → Bool)} {cs : List Char} {c : Char}
    (hclasses : ∀ cls ∈ classes, cls c = false) (hmatches : matchesClasses classes cs = true) :
    c ∉ cs := by
  induction classes generalizing cs with
  | nil =>
      cases cs with
      | nil => exact List.not_mem_nil
      | cons => cases hmatches
  | cons cls classes ih =>
      cases cs with
      | nil => cases hmatches
      | cons d cs =>
          rw [matchesClasses, Bool.and_eq_true] at hmatches
          intro hmem
          rcases List.mem_cons.mp hmem with heq | htail
          · rw [← heq, hclasses cls List.mem_cons_self] at hmatches
            cases hmatches.1
          · apply ih (fun other hother => hclasses other (List.mem_cons_of_mem _ hother)) hmatches.2
            exact htail

/-- The characters of a generated serial, which leaves out the ones that look alike. -/
def isSerialChar (c : Char) : Bool :=
  "23456789ABCDEFGHJKLMNPQRSTUVWXYZabcdefghijkmnopqrstuvwxyz".toList.contains c

def taskIdClasses (serial : List (Char → Bool)) : List (Char → Bool) :=
  "TASK-".toList.map (fun expected c => c == expected) ++
    (List.replicate 4 Char.isDigit ++ (· == '-') :: List.replicate 2 Char.isDigit ++
      (· == '-') :: List.replicate 2 Char.isDigit ++ (· == '-') :: serial)

/-- The regular expression of `TaskId`. -/
def isTaskId (id : String) : Bool :=
  matchesClasses (taskIdClasses (List.replicate 3 Char.isDigit)) id.toList ||
    matchesClasses (taskIdClasses
      (List.replicate 3 Char.isDigit ++ (· == '-') :: List.replicate 2 Char.isDigit)) id.toList ||
    matchesClasses (taskIdClasses (List.replicate 8 isSerialChar)) id.toList

structure BaseEvent where
  type : String
  taskId : Option String := none
  payload : JsObject := []
  taskId_valid : ∀ id ∈ taskId, isTaskId id = true := by simp

inductive Severity where
  | info
  | warn
  | critical
  deriving DecidableEq, Repr

/-- An exact event type or a pattern that ends in `.*`, and values that the payload must have. -/
structure RuleMatch where
  eventType : String
  payload : Option JsObject := none

structure NotificationRule where
  ruleMatch : RuleMatch
  severity : Severity
  channel : String
  template : String
  dedupeWindowMs : Option Int := none
  neverSuppress : Bool := false

def DEFAULT_RULES : List NotificationRule := [
  { ruleMatch := { eventType := "task.transitioned", payload := some [("to", .str "review")] }
    severity := .warn
    channel := "#aof-review"
    template := "👀 {taskId} ready for review (by {actor})"
    dedupeWindowMs := some 0 },
  { ruleMatch := { eventType := "task.transitioned", payload := some [("to", .str "blocked")] }
    severity := .warn
    channel := "#aof-alerts"
    template := "🚧 {taskId} blocked: {payload.reason}" },
  { ruleMatch := { eventType := "task.transitioned", payload := some [("to", .str "done")] }
    severity := .info
    channel := "#aof-dispatch"
    template := "✅ {actor} completed {taskId}" },
  { ruleMatch := { eventType := "task.transitioned", payload := some [("to", .str "in-progress")] }
    severity := .info
    channel := "#aof-dispatch"
    template := "▶️ {actor} started {taskId}" },
  { ruleMatch := { eventType := "task.transitioned" }
    severity := .info
    channel := "#aof-dispatch"
    template := "🔄 {taskId}: {payload.from} → {payload.to}" },
  { ruleMatch := { eventType := "task.created" }
    severity := .info
    channel := "#aof-dispatch"
    template := "📬 Task {taskId} created: {payload.title}" },
  { ruleMatch := { eventType := "task.blocked" }
    severity := .warn
    channel := "#aof-alerts"
    template := "🚧 {taskId} blocked: {payload.reason}" },
  { ruleMatch := { eventType := "task.deadletter" }
    severity := .critical
    channel := "#aof-alerts"
    template := "🪦 Task {taskId} moved to dead letter: {payload.reason}"
    neverSuppress := true },
  { ruleMatch := { eventType := "task.abandoned" }
    severity := .critical
    channel := "#aof-alerts"
    template := "💀 Task {taskId} may be abandoned (check run.json)"
    neverSuppress := true },
  { ruleMatch := { eventType := "task.resurrected" }
    severity := .info
    channel := "#aof-dispatch"
    template := "🔁 Task {taskId} resurrected" },
  { ruleMatch := { eventType := "task.dep.added" }
    severity := .info
    channel := "#aof-dispatch"
    template := "🔗 Dependency added to {taskId}: {payload.depId}" },
  { ruleMatch := { eventType := "task.dep.removed" }
    severity := .info
    channel := "#aof-dispatch"
    template := "✂️ Dependency removed from {taskId}: {payload.depId}" },
  { ruleMatch :=
      { eventType := "dependency.cascaded", payload := some [("action", .str "promote")] }
    severity := .info
    channel := "#aof-dispatch"
    template := "🔗 Cascade: {payload.count} task(s) promoted after {payload.trigger} completed"
    dedupeWindowMs := some 30000 },
  { ruleMatch := { eventType := "dependency.cascaded", payload := some [("action", .str "block")] }
    severity := .warn
    channel := "#aof-alerts"
    template :=
      "🚧 Cascade block: {payload.count} task(s) blocked — upstream {payload.trigger} is blocked"
    dedupeWindowMs := some 0 },
  { ruleMatch := { eventType := "lease.expired" }
    severity := .warn
    channel := "#aof-alerts"
    template := "⏰ Lease expired on {taskId} (agent: {actor})" },
  { ruleMatch := { eventType := "sla.violation" }
    severity := .warn
    channel := "#aof-alerts"
    template :=
      "⚠️ SLA violation: {taskId} in-progress {payload.durationHrs}h (limit: {payload.limitHrs}h)"
    dedupeWindowMs := some 900000 },
  { ruleMatch := { eventType := "gate_timeout" }
    severity := .warn
    channel := "#aof-alerts"
    template := "⏱️ Gate timeout: {taskId} ({payload.gate})" },
  { ruleMatch := { eventType := "gate_timeout_escalation" }
    severity := .critical
    channel := "#aof-critical"
    template := "🔴 Gate escalation: {taskId} escalated after {payload.elapsed}h"
    neverSuppress := true },
  { ruleMatch := { eventType := "system.drift-detected" }
    severity := .warn
    channel := "#aof-alerts"
    template := "⚠️ Org chart drift: {payload.summary}" },
  { ruleMatch := { eventType := "system.config-changed" }
    severity := .info
    channel := "#aof-alerts"
    template := "🔧 Config changed: {payload.key}" },
  { ruleMatch := { eventType := "system.shutdown" }
    severity := .critical
    channel := "#aof-critical"
    template := "🔴 AOF system shutting down"
    neverSuppress := true },
  { ruleMatch := { eventType := "system.recovery" }
    severity := .warn
    channel := "#aof-alerts"
    template := "🟢 Scheduler recovered" },
  { ruleMatch := { eventType := "system.startup" }
    severity := .info
    channel := "#aof-alerts"
    template := "🟢 AOF system started" },
  { ruleMatch := { eventType := "scheduler_alert" }
    severity := .warn
    channel := "#aof-alerts"
    template := "🔔 Scheduler alert: {payload.reason}" },
  { ruleMatch := { eventType := "murmur.review.dispatched" }
    severity := .info
    channel := "#aof-dispatch"
    template := "🔍 Murmur review dispatched: {payload.taskTitle}" },
  { ruleMatch := { eventType := "murmur.review.dispatch_failed" }
    severity := .warn
    channel := "#aof-alerts"
    template := "⚠️ Murmur dispatch failed: {payload.error}" },
  { ruleMatch := { eventType := "murmur.review.dispatch_error" }
    severity := .warn
    channel := "#aof-alerts"
    template := "⚠️ Murmur dispatch error: {payload.error}" },
  { ruleMatch := { eventType := "murmur.evaluation.error" }
    severity := .warn
    channel := "#aof-alerts"
    template := "⚠️ Murmur evaluation error: {payload.error}" },
  { ruleMatch := { eventType := "murmur.evaluation.failed" }
    severity := .warn
    channel := "#aof-alerts"
    template := "⚠️ Murmur evaluation failed: {payload.error}" } ]

def matchesEventType (pattern eventType : String) : Bool :=
  pattern == eventType ||
    (".*".toList.isSuffixOf pattern.toList &&
      (pattern.toList.dropLast.dropLast ++ ['.']).isPrefixOf eventType.toList)

def matchesPayload (rulePayload : Option JsObject) (event : BaseEvent) : Bool :=
  (rulePayload.getD []).all fun (key, expected) =>
    ((Dict.getEntries key event.payload).getD .undefined).strictEq expected

def findMatchingRule (rules : List NotificationRule) (event : BaseEvent) :
    Option NotificationRule :=
  rules.find? fun rule =>
    matchesEventType rule.ruleMatch.eventType event.type &&
      matchesPayload rule.ruleMatch.payload event

def ALWAYS_CRITICAL_EVENTS : List String :=
  ["system.shutdown", "task.abandoned", "task.deadletter", "gate_timeout_escalation",
    "dag.hop_timeout_escalation"]

namespace SeverityResolver

def isAlwaysCritical (eventType : String) : Bool := ALWAYS_CRITICAL_EVENTS.contains eventType

def resolve (ruleSeverity : Severity) (event : BaseEvent) : Severity :=
  if isAlwaysCritical event.type then .critical else ruleSeverity

def neverSuppress (event : BaseEvent) (ruleNeverSuppress : Bool) : Bool :=
  ruleNeverSuppress || isAlwaysCritical event.type

end SeverityResolver

structure DedupeEntry where
  lastSentAt : Int
  windowMs : Int
  deriving DecidableEq, Repr

structure DeduplicationStore where
  store : Dict String DedupeEntry := .empty
  defaultWindowMs : Int := 300000

namespace DeduplicationStore

def key (taskId : Option String) (eventType : String) : String :=
  taskId.getD "global" ++ ":" ++ eventType

/-- Whether the event is sent, at the time `now`; the window starts here. -/
def shouldSend (deduper : DeduplicationStore) (now : Int) (taskId : Option String)
    (eventType : String) (windowMs : Option Int) : Bool × DeduplicationStore :=
  let effectiveWindow := windowMs.getD deduper.defaultWindowMs
  if effectiveWindow = 0 then (true, deduper)
  else
    let started := { deduper with
      store := deduper.store.set (key taskId eventType) ⟨now, effectiveWindow⟩ }
    match deduper.store.get? (key taskId eventType) with
    | none => (true, started)
    | some entry =>
        if now - entry.lastSentAt < effectiveWindow then (false, deduper) else (true, started)

end DeduplicationStore

structure EngineStats where
  sent : Nat := 0
  suppressed : Nat := 0
  noMatch : Nat := 0
  errors : Nat := 0
  deriving DecidableEq, Repr

inductive Verdict where
  | suppressed
  | sending
  | sent
  | failed
  deriving DecidableEq, Repr

structure Handling where
  event : BaseEvent
  now : Int
  rule : NotificationRule
  effectiveWindow : Int
  verdict : Verdict

/-- The engine, with the calls that it has handled, oldest first. -/
structure NotificationPolicyEngine where
  rules : List NotificationRule := DEFAULT_RULES
  deduper : DeduplicationStore := {}
  enabled : Bool := true
  stats : EngineStats := {}
  handled : List Handling := []

namespace NotificationPolicyEngine

def suppress (engine : NotificationPolicyEngine) (event : BaseEvent) (now : Int)
    (rule : NotificationRule) : NotificationPolicyEngine :=
  { engine with
    stats := { engine.stats with suppressed := engine.stats.suppressed + 1 }
    handled := engine.handled ++
      [⟨event, now, rule, rule.dedupeWindowMs.getD engine.deduper.defaultWindowMs, .suppressed⟩] }

/-- `adapter.send` is called and has not settled. -/
def send (engine : NotificationPolicyEngine) (event : BaseEvent) (now : Int)
    (rule : NotificationRule) : NotificationPolicyEngine :=
  { engine with
    handled := engine.handled ++
      [⟨event, now, rule, rule.dedupeWindowMs.getD engine.deduper.defaultWindowMs, .sending⟩] }

/-- `handleEvent` up to the answer of the adapter, at the time `now`. -/
def handleEvent (engine : NotificationPolicyEngine) (event : BaseEvent) (now : Int) :
    NotificationPolicyEngine :=
  if ¬engine.enabled then engine
  else
    match findMatchingRule engine.rules event with
    | none =>
        { engine with stats := { engine.stats with noMatch := engine.stats.noMatch + 1 } }
    | some rule =>
        if SeverityResolver.neverSuppress event rule.neverSuppress then engine.send event now rule
        else
          let (allowed, deduper) :=
            engine.deduper.shouldSend now event.taskId event.type rule.dedupeWindowMs
          if allowed then { engine with deduper := deduper }.send event now rule
          else engine.suppress event now rule

/-- The adapter has answered to the `index`-th call; a failure is counted and dropped. -/
def settle (engine : NotificationPolicyEngine) (index : Nat) (success : Bool) :
    Option NotificationPolicyEngine :=
  match engine.handled[index]? with
  | none => none
  | some handling =>
      if handling.verdict ≠ .sending then none
      else some
        { engine with
          stats :=
            if success then { engine.stats with sent := engine.stats.sent + 1 }
            else { engine.stats with errors := engine.stats.errors + 1 }
          handled := engine.handled.set index
            { handling with verdict := if success then .sent else .failed } }

def updateRules (engine : NotificationPolicyEngine) (rules : List NotificationRule) :
    NotificationPolicyEngine :=
  { engine with rules := rules }

end NotificationPolicyEngine

inductive EngineEvent where
  | handleEvent (event : BaseEvent) (now : Int)
  | settled (index : Nat) (success : Bool)
  | updateRules (rules : List NotificationRule)

def engineStep (engine : NotificationPolicyEngine) :
    EngineEvent → Option NotificationPolicyEngine
  | .handleEvent event now => some (engine.handleEvent event now)
  | .settled index success => engine.settle index success
  | .updateRules rules => some (engine.updateRules rules)

end Aof
