import Aof.Schemas.WorkflowDag
import Mathlib.Logic.Relation

/-!
# Valid definitions

What a workflow definition has to satisfy, stated without the checks of `validateDAG`: an acyclic
graph of distinct hops, timeouts that denote a duration, roles that are not blank, and conditions
that are small and name existing hops.
-/

namespace Aof

def DistinctIds (definition : WorkflowDefinition) : Prop :=
  (definition.hops.map Hop.id).Nodup

instance (definition : WorkflowDefinition) : Decidable (DistinctIds definition) :=
  inferInstanceAs (Decidable (List.Nodup _))

def ReferencesExist (definition : WorkflowDefinition) : Prop :=
  ∀ hop ∈ definition.hops, ∀ dep ∈ hop.dependsOn, ∃ pred ∈ definition.hops, pred.id = dep

def Precedes (definition : WorkflowDefinition) (dep id : String) : Prop :=
  ∃ hop ∈ definition.hops, hop.id = id ∧ dep ∈ hop.dependsOn

def TopologicalOrder (definition : WorkflowDefinition) (order : List Hop) : Prop :=
  order.Perm definition.hops ∧
    ∀ before hop after, order = before ++ hop :: after →
      ∀ dep ∈ hop.dependsOn, dep ∈ before.map Hop.id

inductive TimeUnit where
  | minutes
  | hours
  | days
  deriving DecidableEq, Repr

namespace TimeUnit

def letter : TimeUnit → Char
  | minutes => 'm'
  | hours => 'h'
  | days => 'd'

def milliseconds : TimeUnit → Nat
  | minutes => 60 * 1000
  | hours => 60 * 60 * 1000
  | days => 24 * 60 * 60 * 1000

end TimeUnit

def IsTimeout (timeout : String) (digits : List Char) (unit : TimeUnit) : Prop :=
  timeout.toList = digits ++ [unit.letter] ∧ digits ≠ [] ∧ ∀ c ∈ digits, c.isDigit

namespace ConditionExpr

mutual

def depth : ConditionExpr → Nat
  | .and conditions => depthOf conditions
  | .or conditions => depthOf conditions
  | .not condition => condition.depth + 1
  | _ => 0

def depthOf : List ConditionExpr → Nat
  | [] => 0
  | child :: rest => max (child.depth + 1) (depthOf rest)

end

mutual

def nodes : ConditionExpr → Nat
  | .and conditions => nodesOf conditions + 1
  | .or conditions => nodesOf conditions + 1
  | .not condition => condition.nodes + 1
  | _ => 1

def nodesOf : List ConditionExpr → Nat
  | [] => 0
  | child :: rest => child.nodes + nodesOf rest

end

/-- The field is `hops.`, the id of a hop, and nothing more or a dot and something. -/
def FieldNames (field id : String) : Prop :=
  ∃ rest, field.toList = "hops.".toList ++ id.toList ++ rest ∧ id.toList ≠ [] ∧
    '.' ∉ id.toList ∧ ∀ c ∈ rest.head?, c = '.'

inductive Mentions (id : String) : ConditionExpr → Prop
  | hopStatus {status : String} : Mentions id (.hopStatus id status)
  | eq {field : String} {value : JsValue} : FieldNames field id → Mentions id (.eq field value)
  | neq {field : String} {value : JsValue} : FieldNames field id → Mentions id (.neq field value)
  | gt {field : String} {value : JsNumber} : FieldNames field id → Mentions id (.gt field value)
  | gte {field : String} {value : JsNumber} : FieldNames field id → Mentions id (.gte field value)
  | lt {field : String} {value : JsNumber} : FieldNames field id → Mentions id (.lt field value)
  | lte {field : String} {value : JsNumber} : FieldNames field id → Mentions id (.lte field value)
  | isIn {field : String} {value : List JsValue} :
      FieldNames field id → Mentions id (.isIn field value)
  | and {conditions : List ConditionExpr} {condition : ConditionExpr} :
      condition ∈ conditions → Mentions id condition → Mentions id (.and conditions)
  | or {conditions : List ConditionExpr} {condition : ConditionExpr} :
      condition ∈ conditions → Mentions id condition → Mentions id (.or conditions)
  | not {condition : ConditionExpr} : Mentions id condition → Mentions id (.not condition)

end ConditionExpr

structure ValidFields (definition : WorkflowDefinition) (hop : Hop) : Prop where
  timeout : ∀ timeout, hop.timeout = some timeout → ∃ digits unit, IsTimeout timeout digits unit
  escalateTo : ∀ role, hop.escalateTo = some role →
    ∃ c ∈ role.toList, JsString.isWhitespace c = false
  depth : ∀ condition, hop.condition = some condition → condition.depth ≤ MAX_CONDITION_DEPTH
  nodes : ∀ condition, hop.condition = some condition → condition.nodes ≤ MAX_CONDITION_NODES
  mentions : ∀ condition, hop.condition = some condition →
    ∀ id, condition.Mentions id → ∃ other ∈ definition.hops, other.id = id

structure ValidDefinition (definition : WorkflowDefinition) : Prop where
  ids : DistinctIds definition
  references : ReferencesExist definition
  order : ∃ order, TopologicalOrder definition order
  fields : ∀ hop ∈ definition.hops, ValidFields definition hop

end Aof
