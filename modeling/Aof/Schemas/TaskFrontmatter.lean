import Aof.Lib.Schema

/-!
# The schema of a task's frontmatter

`TaskFrontmatter` of `schemas/task.ts`, with the workflow of `schemas/workflow-dag.ts`.  Which texts
are times is decided by the schema library.
-/

namespace Aof.Schemas

open JsValue (property)
open Schema

def nonempty : String → Bool := fun text => text ≠ ""

def isInt : JsNumber → Bool
  | .finite value => value.den = 1
  | _ => false

def isNonnegative (number : JsNumber) : Bool := isInt number && JsNumber.lessEq (.finite 0) number

def isPositive (number : JsNumber) : Bool := isInt number && JsNumber.less (.finite 0) number

def matchesAll (tests : List (Char → Bool)) (text : List Char) : Bool :=
  tests.length = text.length && (tests.zip text).all fun pair => pair.1 pair.2

def exactly (text : String) : List (Char → Bool) := text.toList.map fun c => (· = c)

def digits (count : Nat) : List (Char → Bool) := List.replicate count Char.isDigit

def SUFFIX_ALPHABET : List Char :=
  "23456789ABCDEFGHJKLMNPQRSTUVWXYZabcdefghijkmnopqrstuvwxyz".toList

def taskIdDate : List (Char → Bool) :=
  exactly "TASK-" ++ digits 4 ++ exactly "-" ++ digits 2 ++ exactly "-" ++ digits 2 ++ exactly "-"

def isTaskId (text : String) : Bool :=
  matchesAll (taskIdDate ++ digits 3) text.toList ||
    matchesAll (taskIdDate ++ digits 3 ++ exactly "-" ++ digits 2) text.toList ||
    matchesAll (taskIdDate ++ List.replicate 8 (SUFFIX_ALPHABET.contains ·)) text.toList

def TaskId : Schema := string isTaskId

def TaskStatus : Schema :=
  enum ["backlog", "ready", "in-progress", "blocked", "review", "done", "cancelled", "deadletter"]

def TaskPriority : Schema := enum ["critical", "high", "normal", "low"]

def GateOutcome : Schema := enum ["complete", "needs_review", "blocked"]

def strings : Schema := array (string)

def TaskRouting : Schema :=
  object [
    ("role", optional (string)),
    ("team", optional (string)),
    ("agent", optional (string)),
    ("tags", withDefault strings (.arr [])),
    ("workflow", optional (string))]

def TaskSLA : Schema :=
  object [
    ("maxInProgressMs", optional (number isPositive)),
    ("onViolation", optional (enum ["alert", "block", "deadletter"]))]

def TestSpec : Schema :=
  object [
    ("given", string),
    ("when", string),
    ("then", object [
      ("status", optional (number isInt)),
      ("body_contains", optional strings)])]

/-- The options of `ConditionExpr`, which uses itself. -/
def conditionOptions (conditionExpr : Schema) : List (String × List (String × Schema)) := [
  ("eq", [("field", string), ("value", unknown)]),
  ("neq", [("field", string), ("value", unknown)]),
  ("gt", [("field", string), ("value", number)]),
  ("gte", [("field", string), ("value", number)]),
  ("lt", [("field", string), ("value", number)]),
  ("lte", [("field", string), ("value", number)]),
  ("in", [("field", string), ("value", array unknown)]),
  ("has_tag", [("value", string)]),
  ("hop_status", [("hop", string), ("status", string)]),
  ("and", [("conditions", array conditionExpr)]),
  ("or", [("conditions", array conditionExpr)]),
  ("not", [("condition", conditionExpr)]),
  ("true", []),
  ("false", [])]

def ConditionExpr : Schema :=
  lazy fun conditionExpr => discriminatedUnion "op" (conditionOptions conditionExpr)

def Hop : Schema :=
  object [
    ("id", string nonempty),
    ("role", string nonempty),
    ("dependsOn", withDefault strings (.arr [])),
    ("joinType", withDefault (enum ["all", "any"]) (.str "all")),
    ("autoAdvance", withDefault boolean (.bool true)),
    ("condition", optional ConditionExpr),
    ("description", optional (string)),
    ("canReject", withDefault boolean (.bool false)),
    ("rejectionStrategy", optional (enum ["origin", "predecessors"])),
    ("timeout", optional (string)),
    ("escalateTo", optional (string))]

def WorkflowDefinition : Schema :=
  object [
    ("name", string nonempty),
    ("hops", array Hop 1)]

def HopStatus : Schema := enum ["pending", "ready", "dispatched", "complete", "failed", "skipped"]

def WorkflowStatus : Schema := enum ["pending", "running", "complete", "failed"]

section Times

variable (isDatetime : String → Bool)

/-- `z.string().datetime()` -/
def datetime : Schema := string isDatetime

def HopState : Schema :=
  object [
    ("status", HopStatus),
    ("startedAt", optional (datetime isDatetime)),
    ("completedAt", optional (datetime isDatetime)),
    ("agent", optional (string)),
    ("correlationId", optional (string)),
    ("result", optional (record unknown)),
    ("rejectionCount", optional (number isNonnegative)),
    ("escalated", optional boolean)]

def WorkflowState : Schema :=
  object [
    ("status", WorkflowStatus),
    ("hops", record (HopState isDatetime)),
    ("startedAt", optional (datetime isDatetime)),
    ("completedAt", optional (datetime isDatetime))]

def TaskWorkflow : Schema :=
  object [
    ("definition", WorkflowDefinition),
    ("state", WorkflowState isDatetime),
    ("templateName", optional (string))]

def TaskLease : Schema :=
  object [
    ("agent", string),
    ("acquiredAt", datetime isDatetime),
    ("expiresAt", datetime isDatetime),
    ("renewCount", withDefault (number isNonnegative) (.num (.finite 0)))]

def GateState : Schema :=
  object [
    ("current", string nonempty),
    ("entered", datetime isDatetime)]

def GateHistoryEntry : Schema :=
  object [
    ("gate", string),
    ("role", string),
    ("agent", optional (string)),
    ("entered", datetime isDatetime),
    ("exited", optional (datetime isDatetime)),
    ("outcome", optional GateOutcome),
    ("summary", optional (string)),
    ("blockers", withDefault strings (.arr [])),
    ("rejectionNotes", optional (string)),
    ("duration", optional (number isNonnegative))]

def ReviewContext : Schema :=
  object [
    ("fromGate", string),
    ("fromAgent", optional (string)),
    ("fromRole", string),
    ("timestamp", datetime isDatetime),
    ("blockers", withDefault strings (.arr [])),
    ("notes", optional (string))]

def frontmatterFields : List (String × Schema) := [
  ("schemaVersion", literals [.num (.finite 1), .num (.finite 2)]),
  ("id", TaskId),
  ("project", optional (string nonempty)),
  ("title", string nonempty),
  ("status", TaskStatus),
  ("priority", withDefault TaskPriority (.str "normal")),
  ("routing", withDefault TaskRouting (.obj [])),
  ("sla", optional TaskSLA),
  ("lease", nullish (TaskLease isDatetime)),
  ("createdAt", datetime isDatetime),
  ("updatedAt", datetime isDatetime),
  ("lastTransitionAt", datetime isDatetime),
  ("createdBy", string),
  ("parentId", optional TaskId),
  ("dependsOn", withDefault (array TaskId) (.arr [])),
  ("contentHash", optional (string)),
  ("metadata", withDefault (record unknown) (.obj [])),
  ("contextTier", optional (enum ["seed", "full"])),
  ("requiredRunbook", optional (string)),
  ("instructionsRef", optional (string nonempty)),
  ("guidanceRef", optional (string nonempty)),
  ("resource", optional (string)),
  ("callbackDepth", optional (number isNonnegative)),
  ("gate", optional (GateState isDatetime)),
  ("gateHistory", withDefault (array (GateHistoryEntry isDatetime)) (.arr [])),
  ("reviewContext", optional (ReviewContext isDatetime)),
  ("tests", withDefault (array TestSpec) (.arr [])),
  ("testsFile", optional (string)),
  ("workflow", optional (TaskWorkflow isDatetime))]

/-- The old name of a field stands for the new one, where that is absent. -/
def renameRunbook : JsValue → JsValue
  | .obj properties =>
      if (property "requiredRunbook" properties).isUndefined &&
          !(property "required_runbook" properties).isUndefined then
        .obj (Dict.setEntries "requiredRunbook" (property "required_runbook" properties) properties)
      else .obj properties
  | value => value

/-- A task has a gate or a workflow. -/
def oneWorkflow : JsValue → Bool
  | .obj properties =>
      (property "gate" properties).isUndefined || (property "workflow" properties).isUndefined
  | _ => true

def TaskFrontmatter : Schema := fun value =>
  refine (object (frontmatterFields isDatetime)) oneWorkflow (renameRunbook value)

end Times

theorem guarded_conditionExpr :
    Guarded fun conditionExpr => discriminatedUnion "op" (conditionOptions conditionExpr) := by
  intro schema other depth hbelow
  apply below_discriminatedUnion
  have hsame : ∀ shape, ShapeBelow depth shape shape :=
    fun shape => List.forall₂_same.mpr fun field _ => ⟨rfl, below_refl depth field.2⟩
  have harray : ShapeBelow depth [("conditions", array schema)] [("conditions", array other)] :=
    .cons ⟨rfl, below_array hbelow 0⟩ .nil
  have hself : ShapeBelow depth [("condition", schema)] [("condition", other)] :=
    .cons ⟨rfl, hbelow⟩ .nil
  unfold conditionOptions
  iterate 9 refine .cons ⟨rfl, hsame _⟩ ?_
  refine .cons ⟨rfl, harray⟩ (.cons ⟨rfl, harray⟩ (.cons ⟨rfl, hself⟩ ?_))
  exact .cons ⟨rfl, hsame _⟩ (.cons ⟨rfl, hsame _⟩ .nil)

theorem lawful_conditionExpr : Lawful ConditionExpr := by
  apply lawful_lazy guarded_conditionExpr
  intro schema hlawful
  apply lawful_discriminatedUnion
  have harray := lawful_array hlawful 0
  simp only [conditionOptions, List.forall_mem_cons, List.map_cons, List.map_nil]
  simp [hlawful]

theorem lawful_strings : Lawful strings := lawful_array (lawful_string _) 0

theorem defined_strings : Defined strings := defined_array _ 0

theorem lawful_taskRouting : Lawful TaskRouting := by
  apply lawful_object (by decide)
  simp [lawful_strings, defined_strings]

theorem lawful_taskSLA : Lawful TaskSLA := by
  apply lawful_object (by decide)
  simp

theorem lawful_testSpec : Lawful TestSpec := by
  have hthen : Lawful (object [("status", optional (number isInt)),
      ("body_contains", optional strings)]) := by
    apply lawful_object (by decide)
    simp [lawful_strings]
  apply lawful_object (by decide)
  simp [hthen]

theorem lawful_hop : Lawful Hop := by
  apply lawful_object (by decide)
  simp [lawful_strings, defined_strings, lawful_conditionExpr]

theorem lawful_workflowDefinition : Lawful WorkflowDefinition := by
  apply lawful_object (by decide)
  simp [lawful_hop]

section Times

variable (isDatetime : String → Bool)

theorem lawful_datetime : Lawful (datetime isDatetime) := lawful_string isDatetime

theorem lawful_hopState : Lawful (HopState isDatetime) := by
  apply lawful_object (by simp only [List.map_cons, List.map_nil]; decide)
  simp [HopStatus, lawful_datetime, lawful_record]

theorem lawful_taskWorkflow : Lawful (TaskWorkflow isDatetime) := by
  have hstate : Lawful (WorkflowState isDatetime) := by
    apply lawful_object (by simp only [List.map_cons, List.map_nil]; decide)
    simp [WorkflowStatus, lawful_datetime, lawful_record, lawful_hopState]
  apply lawful_object (by simp only [List.map_cons, List.map_nil]; decide)
  simp [lawful_workflowDefinition, hstate]

theorem lawful_taskLease : Lawful (TaskLease isDatetime) := by
  apply lawful_object (by simp only [List.map_cons, List.map_nil]; decide)
  simp [lawful_datetime]

theorem lawful_gateState : Lawful (GateState isDatetime) := by
  apply lawful_object (by simp only [List.map_cons, List.map_nil]; decide)
  simp [lawful_datetime]

theorem lawful_gateHistoryEntry : Lawful (GateHistoryEntry isDatetime) := by
  apply lawful_object (by simp only [List.map_cons, List.map_nil]; decide)
  simp [GateOutcome, lawful_datetime, lawful_strings, defined_strings]

theorem lawful_reviewContext : Lawful (ReviewContext isDatetime) := by
  apply lawful_object (by simp only [List.map_cons, List.map_nil]; decide)
  simp [lawful_datetime, lawful_strings, defined_strings]

theorem nodup_frontmatterFields : ((frontmatterFields isDatetime).map Prod.fst).Nodup := by
  simp only [frontmatterFields, List.map_cons, List.map_nil]
  decide

theorem lawful_frontmatterFields : ∀ field ∈ frontmatterFields isDatetime, Lawful field.2 := by
  simp only [frontmatterFields, List.forall_mem_cons]
  have hrouting : Defined TaskRouting := defined_object _
  have hlease : Lawful (nullish (TaskLease isDatetime)) :=
    lawful_nullish (lawful_taskLease isDatetime) rfl
  simp [TaskId, TaskStatus, TaskPriority, lawful_taskRouting, hrouting, hlease, lawful_taskSLA,
    lawful_testSpec, lawful_datetime, lawful_taskWorkflow, lawful_gateState,
    lawful_gateHistoryEntry, lawful_reviewContext, lawful_record, defined_record]

theorem taskFrontmatter_eq_some_iff {value result : JsValue} :
    TaskFrontmatter isDatetime value = some result ↔
      object (frontmatterFields isDatetime) (renameRunbook value) = some result ∧
        oneWorkflow result = true :=
  refine_eq_some_iff

theorem renameRunbook_of_not_mem {properties : JsObject}
    (hkey : "required_runbook" ∉ properties.map Prod.fst) :
    renameRunbook (.obj properties) = .obj properties := by
  have hproperty : property "required_runbook" properties = .undefined := by
    rw [property, Dict.getEntries_eq_none_iff.mpr hkey]
    rfl
  rw [renameRunbook, hproperty]
  exact if_neg (by rw [Bool.and_eq_true]; exact fun h => Bool.false_ne_true h.2)

theorem old_name_not_mem {value : JsValue} {results : JsObject}
    (hread : object (frontmatterFields isDatetime) value = some (.obj results)) :
    "required_runbook" ∉ results.map Prod.fst := by
  obtain ⟨properties, _, rfl, -, -⟩ := object_eq_some_iff.mp hread
  intro hmem
  have hfield := (keys_object hread).subset hmem
  revert hfield
  simp only [frontmatterFields, List.map_cons, List.map_nil]
  decide

theorem lawful_taskFrontmatter : Lawful (TaskFrontmatter isDatetime) := by
  have hobject : Lawful (refine (object (frontmatterFields isDatetime)) oneWorkflow) :=
    lawful_refine (lawful_object (nodup_frontmatterFields isDatetime)
      (lawful_frontmatterFields isDatetime)) oneWorkflow
  have hsettled : ∀ {value result}, TaskFrontmatter isDatetime value = some result →
      renameRunbook result = result := by
    intro value result hread
    have hfields := ((taskFrontmatter_eq_some_iff isDatetime).mp hread).1
    obtain ⟨properties, results, -, -, rfl⟩ := object_eq_some_iff.mp hfields
    exact renameRunbook_of_not_mem (old_name_not_mem isDatetime hfields)
  constructor
  · intro value result hread
    rw [TaskFrontmatter, hsettled hread]
    exact hobject.stable hread
  · intro value other hread hedited
    have hfields := ((taskFrontmatter_eq_some_iff isDatetime).mp hread).1
    have hvalue := hsettled hread
    rw [TaskFrontmatter, hvalue] at hread
    obtain ⟨properties, results, -, -, rfl⟩ := object_eq_some_iff.mp hfields
    have hother : renameRunbook other = other := by
      have hkeys := old_name_not_mem isDatetime hfields
      cases hedited with
      | @property value other before after key hedited =>
          apply renameRunbook_of_not_mem
          rw [List.map_append, List.map_cons] at hkeys ⊢
          exact hkeys
    rw [TaskFrontmatter, hother]
    exact hobject.faithful hread hedited

end Times

end Aof.Schemas
