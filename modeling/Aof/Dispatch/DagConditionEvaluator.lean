import Aof.Schemas.WorkflowDag

/-!
# Condition evaluator

Dot-path field resolution and the operators of the condition language, from
`dispatch/dag-condition-evaluator.ts`.
-/

namespace Aof

structure TaskMeta where
  status : String
  tags : List String
  priority : String
  routing : JsObject
  deriving Repr

def TaskMeta.toValue (task : TaskMeta) : JsValue :=
  .obj [("status", .str task.status), ("tags", .arr (task.tags.map .str)),
    ("priority", .str task.priority), ("routing", .obj task.routing)]

abbrev Statuses := String → Option HopStatus

/-- `hops[id]?.status` -/
def statusOf (hops : Dict String HopState) : Statuses := fun id =>
  (hops.get? id).map HopState.status

/-- Of the live hop states, a condition reads the statuses only. -/
structure ConditionContext where
  context : JsValue
  hopStatuses : Statuses
  task : TaskMeta

def getField (obj : JsValue) (path : String) : JsValue :=
  (JsString.splitDots path).foldl
    (fun current part => (current.readProperty part).getD .undefined) obj

def buildConditionContext (state : WorkflowState) (task : TaskMeta) : JsValue :=
  .obj [("hops", .obj (state.hops.entries.map fun entry =>
      (entry.1, .obj [("result", .obj (entry.2.result.getD []))]))),
    ("task", task.toValue)]

/-- The comparison operators read an absent field as "no". -/
def compareField (ctx : ConditionContext) (field : String) (test : JsNumber → Bool) : Bool :=
  match getField ctx.context field with
  | .undefined => false
  | value => test value.toNumber

mutual

def evaluateCondition (ctx : ConditionContext) : ConditionExpr → Bool
  | .eq field value => (getField ctx.context field).strictEq value
  | .neq field value => !(getField ctx.context field).strictEq value
  | .gt field value => compareField ctx field fun number => value.less number
  | .gte field value => compareField ctx field fun number => value.lessEq number
  | .lt field value => compareField ctx field fun number => number.less value
  | .lte field value => compareField ctx field fun number => number.lessEq value
  | .isIn field value =>
      match getField ctx.context field with
      | .undefined => false
      | found => JsValue.includes value found
  | .hasTag value => decide (value ∈ ctx.task.tags)
  | .hopStatus hop status =>
      decide ((ctx.hopStatuses hop).map HopStatus.toString = some status)
  | .and conditions => evaluateEvery ctx conditions
  | .or conditions => evaluateSome ctx conditions
  | .not condition => !evaluateCondition ctx condition
  | .true => true
  | .false => false

/-- `conditions.every((c) => evaluateCondition(c, ctx))` -/
def evaluateEvery (ctx : ConditionContext) : List ConditionExpr → Bool
  | [] => true
  | condition :: rest => evaluateCondition ctx condition && evaluateEvery ctx rest

/-- `conditions.some((c) => evaluateCondition(c, ctx))` -/
def evaluateSome (ctx : ConditionContext) : List ConditionExpr → Bool
  | [] => false
  | condition :: rest => evaluateCondition ctx condition || evaluateSome ctx rest

end

mutual

def hopStatusReads : ConditionExpr → List (String × String)
  | .hopStatus hop status => [(hop, status)]
  | .and conditions | .or conditions => hopStatusReadsList conditions
  | .not condition => hopStatusReads condition
  | _ => []

def hopStatusReadsList : List ConditionExpr → List (String × String)
  | [] => []
  | condition :: rest => hopStatusReads condition ++ hopStatusReadsList rest

end

def SameAnswers (statuses statuses' : Statuses) (reads : List (String × String)) : Prop :=
  ∀ read ∈ reads, (statuses read.1).map HopStatus.toString = some read.2 ↔
    (statuses' read.1).map HopStatus.toString = some read.2

mutual

variable {statuses statuses' : Statuses}

theorem evaluateCondition_congr (context : JsValue) (task : TaskMeta) (condition : ConditionExpr)
    (hreads : SameAnswers statuses statuses' (hopStatusReads condition)) :
    evaluateCondition ⟨context, statuses, task⟩ condition =
      evaluateCondition ⟨context, statuses', task⟩ condition := by
  cases condition with
  | hopStatus hop status =>
      have hread := hreads (hop, status) (by simp [hopStatusReads])
      simp only [evaluateCondition, hread]
  | and conditions =>
      simpa only [evaluateCondition] using
        (evaluateList_congr context task conditions (by simpa [hopStatusReads] using hreads)).1
  | or conditions =>
      simpa only [evaluateCondition] using
        (evaluateList_congr context task conditions (by simpa [hopStatusReads] using hreads)).2
  | not condition =>
      simp only [evaluateCondition]
      rw [evaluateCondition_congr context task condition (by simpa [hopStatusReads] using hreads)]
  | _ => rfl

theorem evaluateList_congr (context : JsValue) (task : TaskMeta) (conditions : List ConditionExpr)
    (hreads : SameAnswers statuses statuses' (hopStatusReadsList conditions)) :
    evaluateEvery ⟨context, statuses, task⟩ conditions =
        evaluateEvery ⟨context, statuses', task⟩ conditions ∧
      evaluateSome ⟨context, statuses, task⟩ conditions =
        evaluateSome ⟨context, statuses', task⟩ conditions := by
  cases conditions with
  | nil => exact ⟨rfl, rfl⟩
  | cons condition rest =>
      rw [hopStatusReadsList, SameAnswers, List.forall_mem_append] at hreads
      have hhead := evaluateCondition_congr context task condition hreads.1
      have htail := evaluateList_congr context task rest hreads.2
      simp only [evaluateEvery, evaluateSome, hhead, htail.1, htail.2, and_self]

end

end Aof
