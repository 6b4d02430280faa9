import Aof.Dispatch.TaskDispatcher
import Aof.Lib.Acyclic
import Mathlib.Data.List.Infix

/-!
# The linter of org charts

`lintOrgChart` of `org/linter.ts`, on the charts that the schema accepts.  The fields that the
linter does not read are left out.
-/

namespace Aof

/-- What `z.string().min(1)` accepts. -/
abbrev NonEmptyString := {text : String // text ≠ ""}

namespace Org

structure OrgUnit where
  id : NonEmptyString
  parentId : Option String := none

structure OrgGroup where
  id : NonEmptyString
  memberIds : List String := []

structure OrgMembership where
  agentId : NonEmptyString
  orgUnitId : NonEmptyString

inductive RelationshipType where
  | escalatesTo
  | delegatesTo
  | consultsWith
  | reportsTo
  deriving DecidableEq, Repr

structure OrgRelationship where
  fromAgentId : NonEmptyString
  toAgentId : NonEmptyString
  type : RelationshipType
  active : Bool := true
  deriving DecidableEq

inductive MemoryTier where
  | hot
  | warm
  | cold
  deriving DecidableEq, Repr

structure ContextBudgetPolicy where
  target : Nat
  warn : Nat
  critical : Nat

structure OrgPolicies where
  memoryTiers : Option (List MemoryTier) := none
  context : Option ContextBudgetPolicy := none

structure MemoryPoolHot where
  path : NonEmptyString
  agents : Option (List String) := none

structure MemoryPoolWarm where
  id : NonEmptyString
  path : NonEmptyString
  roles : List String

structure MemoryPools where
  hot : MemoryPoolHot
  warm : List MemoryPoolWarm := []
  cold : List NonEmptyString := []

structure OrgAgent where
  id : NonEmptyString
  openclawAgentId : Option String := none
  team : Option String := none
  reportsTo : Option String := none
  policies : Option OrgPolicies := none
  active : Bool := true

structure OrgTeam where
  id : NonEmptyString
  lead : Option String := none

structure RoutingRule where
  targetTeam : Option String := none
  targetAgent : Option String := none

structure OrgChart where
  orgUnits : List OrgUnit := []
  groups : List OrgGroup := []
  memberships : List OrgMembership := []
  relationships : List OrgRelationship := []
  defaultPolicies : Option OrgPolicies := none
  memoryPools : Option MemoryPools := none
  /-- The agents of each role. -/
  roles : Option (Dict String (List String)) := none
  teams : List OrgTeam := []
  agents : List OrgAgent := []
  routing : List RoutingRule := []

inductive Severity where
  | error
  | warning
  deriving DecidableEq, Repr

structure LintIssue where
  severity : Severity
  rule : String
  message : String
  path : String
  deriving DecidableEq, Repr

def lintError (rule message path : String) : LintIssue := ⟨.error, rule, message, path⟩

def lintWarning (rule message path : String) : LintIssue := ⟨.warning, rule, message, path⟩

namespace Linter

def checkMemoryTiers (tiers : List MemoryTier) (path : String) : List LintIssue :=
  if .cold ∈ tiers ∧ (.warm ∈ tiers ∨ .hot ∈ tiers) then
    [lintError "no-cold-in-warm" "Memory policy cannot mix cold tier with warm/hot tiers" path]
  else []

def checkContextBudgetPolicy (policy : ContextBudgetPolicy) (path : String) : List LintIssue :=
  (if policy.target > policy.warn then
    [lintError "valid-context-budget-thresholds"
      s!"Context budget policy target ({policy.target}) must be <= warn ({policy.warn})" path]
  else []) ++
  if policy.warn > policy.critical then
    [lintError "valid-context-budget-thresholds"
      s!"Context budget policy warn ({policy.warn}) must be <= critical ({policy.critical})" path]
  else []

def checkPolicies (policies : Option OrgPolicies) (path : String) : List LintIssue :=
  match policies with
  | none => []
  | some policies =>
      (policies.memoryTiers.elim [] fun tiers => checkMemoryTiers tiers s!"{path}.memory.tiers") ++
        policies.context.elim [] fun policy =>
          checkContextBudgetPolicy policy s!"{path}.context"

def duplicates (issue : String → LintIssue) : List String → List String → List LintIssue
  | _, [] => []
  | seen, id :: ids =>
      (if id ∈ seen then [issue id] else []) ++ duplicates issue (id :: seen) ids

section Chart

variable (chart : OrgChart)

def agentIds : List String := chart.agents.map (·.id.val)

def teamIds : List String := chart.teams.map (·.id.val)

def orgUnitIds : List String := chart.orgUnits.map (·.id.val)

def superior (id : String) : Option String :=
  truthy ((chart.agents.find? fun agent => agent.id.val = id).bind (·.reportsTo))

def reportsFuel : Nat :=
  (agentIds chart ++ chart.agents.filterMap (·.reportsTo)).length + 1

def hasCircularReports (agent : OrgAgent) : Bool :=
  (truthy agent.reportsTo).isSome &&
    PointerWalk.revisits (superior chart) (reportsFuel chart) [] (some agent.id.val) = some true

def escalations : List OrgRelationship :=
  chart.relationships.filter fun rel => rel.type = .escalatesTo && rel.active

def escalationMap : Dict String String :=
  (escalations chart).foldl (fun map rel => map.set rel.fromAgentId.val rel.toAgentId.val) .empty

def escalatesTo (id : String) : Option String := truthy ((escalationMap chart).get? id)

def escalationFuel : Nat :=
  ((escalationMap chart).keys ++ (escalationMap chart).values).length + 1

def hasCircularEscalation (startAgent : String) : Bool :=
  PointerWalk.revisits (escalatesTo chart) (escalationFuel chart) [] (some startAgent) = some true

def rootUnits : List OrgUnit := chart.orgUnits.filter fun unit => (truthy unit.parentId).isNone

def reportsToIssues : List LintIssue :=
  chart.agents.flatMap fun agent =>
    match truthy agent.reportsTo with
    | some reportsTo =>
        if reportsTo ∈ agentIds chart then []
        else [lintError "valid-reports-to"
          s!"Agent '{agent.id.val}' reportsTo '{reportsTo}' which does not exist"
          s!"agents.{agent.id.val}.reportsTo"]
    | none => []

def teamLeadIssues : List LintIssue :=
  chart.teams.flatMap fun team =>
    match truthy team.lead with
    | some lead =>
        if lead ∈ agentIds chart then []
        else [lintError "valid-team-lead"
          s!"Team '{team.id.val}' lead '{lead}' does not exist as an agent"
          s!"teams.{team.id.val}.lead"]
    | none => []

def agentTeamIssues : List LintIssue :=
  chart.agents.flatMap fun agent =>
    match truthy agent.team with
    | some team =>
        if team ∈ teamIds chart then []
        else [lintError "valid-agent-team"
          s!"Agent '{agent.id.val}' belongs to team '{team}' which does not exist"
          s!"agents.{agent.id.val}.team"]
    | none => []

def orphanIssues : List LintIssue :=
  let agentsWithoutTeams := chart.agents.filter fun agent =>
    (truthy agent.team).isNone && (truthy agent.reportsTo).isNone
  if agentsWithoutTeams.length > 1 then
    agentsWithoutTeams.map fun agent => lintWarning "orphaned-agent"
      s!"Agent '{agent.id.val}' has no team and no reportsTo (orphaned)" s!"agents.{agent.id.val}"
  else []

def routingIssues : List LintIssue :=
  chart.routing.zipIdx.flatMap fun (rule, i) =>
    (match truthy rule.targetAgent with
    | some targetAgent =>
        if targetAgent ∈ agentIds chart then []
        else [lintError "valid-routing-target"
          s!"Routing rule {i} targets agent '{targetAgent}' which does not exist"
          s!"routing[{i}].targetAgent"]
    | none => []) ++
    match truthy rule.targetTeam with
    | some targetTeam =>
        if targetTeam ∈ teamIds chart then []
        else [lintError "valid-routing-target"
          s!"Routing rule {i} targets team '{targetTeam}' which does not exist"
          s!"routing[{i}].targetTeam"]
    | none => []

def roleIssues : List LintIssue :=
  match chart.roles with
  | none => []
  | some roles =>
      roles.objectEntries.flatMap fun (roleName, agents) =>
        (agents.filter fun agentId => agentId ∉ agentIds chart).map fun agentId =>
          lintError "valid-role-agent" s!"Role '{roleName}' references missing agent '{agentId}'"
            s!"roles.{roleName}.agents"

def circularReportsIssues : List LintIssue :=
  (chart.agents.filter (hasCircularReports chart)).map fun agent =>
    lintError "no-circular-reports"
      s!"Circular reporting chain detected starting from agent '{agent.id.val}'"
      s!"agents.{agent.id.val}.reportsTo"

def agentIdIssues : List LintIssue :=
  duplicates (fun id => lintError "unique-agent-id" s!"Duplicate agent ID: '{id}'" s!"agents.{id}")
    [] (agentIds chart)

def inactiveTargetIssues : List LintIssue :=
  let inactiveAgents := (chart.agents.filter fun agent => !agent.active).map (·.id.val)
  chart.routing.zipIdx.flatMap fun (rule, i) =>
    match truthy rule.targetAgent with
    | some targetAgent =>
        if targetAgent ∈ inactiveAgents then
          [lintWarning "inactive-routing-target"
            s!"Routing rule {i} targets inactive agent '{targetAgent}'"
            s!"routing[{i}].targetAgent"]
        else []
    | none => []

def selfReportIssues : List LintIssue :=
  (chart.agents.filter fun agent => agent.reportsTo = some agent.id.val).map fun agent =>
    lintError "no-self-report" s!"Agent '{agent.id.val}' reports to itself"
      s!"agents.{agent.id.val}.reportsTo"

def rootIssues : List LintIssue :=
  let roots := rootUnits chart
  if roots.length > 1 then
    [lintError "single-root"
      (s!"Org chart has {roots.length} root units, expected 1. Roots: " ++
        ", ".intercalate (roots.map (·.id.val)))
      "orgUnits"]
  else []

def parentIssues : List LintIssue :=
  chart.orgUnits.flatMap fun unit =>
    match truthy unit.parentId with
    | some parentId =>
        if parentId ∈ orgUnitIds chart then []
        else [lintError "valid-parent-id"
          s!"Org unit '{unit.id.val}' has parentId '{parentId}' which does not exist"
          s!"orgUnits.{unit.id.val}.parentId"]
    | none => []

def orgUnitIdIssues : List LintIssue :=
  duplicates (fun id =>
    lintError "unique-org-unit-id" s!"Duplicate org unit ID: '{id}'" s!"orgUnits.{id}")
    [] (orgUnitIds chart)

def groupIdIssues : List LintIssue :=
  duplicates (fun id => lintError "unique-group-id" s!"Duplicate group ID: '{id}'" s!"groups.{id}")
    [] (chart.groups.map (·.id.val))

def membershipIssues : List LintIssue :=
  chart.memberships.zipIdx.flatMap fun (membership, i) =>
    (if membership.agentId.val ∈ agentIds chart then []
    else [lintError "valid-membership-agent"
      s!"Membership {i} references non-existent agent '{membership.agentId.val}'"
      s!"memberships[{i}].agentId"]) ++
    if membership.orgUnitId.val ∈ orgUnitIds chart then []
    else [lintError "valid-membership-unit"
      s!"Membership {i} references non-existent org unit '{membership.orgUnitId.val}'"
      s!"memberships[{i}].orgUnitId"]

def groupMemberIssues : List LintIssue :=
  chart.groups.flatMap fun group =>
    (group.memberIds.filter fun memberId => memberId ∉ agentIds chart).map fun memberId =>
      lintError "valid-group-members"
        s!"Group '{group.id.val}' contains non-existent member '{memberId}'"
        s!"groups.{group.id.val}.memberIds"

def openclawIdIssues : List LintIssue :=
  (chart.agents.filter fun agent => (truthy agent.openclawAgentId).isNone && agent.active).map
    fun agent => lintWarning "missing-openclaw-agent-id"
      (s!"Active agent '{agent.id.val}' is missing openclawAgentId " ++
        "(needed for drift detection)")
      s!"agents.{agent.id.val}.openclawAgentId"

def relationshipIssues : List LintIssue :=
  chart.relationships.zipIdx.flatMap fun (rel, i) =>
    (if rel.fromAgentId.val ∈ agentIds chart then []
    else [lintError "valid-relationship-from"
      s!"Relationship {i} has invalid fromAgentId '{rel.fromAgentId.val}'"
      s!"relationships[{i}].fromAgentId"]) ++
    if rel.toAgentId.val ∈ agentIds chart then []
    else [lintError "valid-relationship-to"
      s!"Relationship {i} has invalid toAgentId '{rel.toAgentId.val}'"
      s!"relationships[{i}].toAgentId"]

def selfEscalationIssues : List LintIssue :=
  (chart.relationships.filter fun rel =>
    rel.type = .escalatesTo && rel.fromAgentId = rel.toAgentId).map fun rel =>
      lintError "no-self-escalation" s!"Agent '{rel.fromAgentId.val}' escalates to itself"
        "relationships"

def circularEscalationIssues : List LintIssue :=
  ((escalationMap chart).keys.filter (hasCircularEscalation chart)).map fun startAgent =>
    lintError "no-circular-escalation"
      s!"Circular escalation chain detected starting from agent '{startAgent}'" "relationships"

def policyIssues : List LintIssue :=
  (chart.agents.flatMap fun agent =>
    checkPolicies agent.policies s!"agents.{agent.id.val}.policies") ++
  checkPolicies chart.defaultPolicies "defaults.policies"

end Chart

structure PoolPath where
  id : String
  path : String
  lintPath : String

def poolPaths (pools : MemoryPools) : List PoolPath :=
  ⟨"hot", pools.hot.path.val, "memoryPools.hot.path"⟩ ::
    pools.warm.map fun pool =>
      ⟨pool.id.val, pool.path.val, s!"memoryPools.warm.{pool.id.val}.path"⟩

/-- `registerPath`; the first pool keeps a path. -/
def registerPath (seenPaths : Dict String String) (pool : PoolPath) :
    List LintIssue × Dict String String :=
  match seenPaths.get? pool.path with
  | some existing =>
      ([lintError "unique-memory-pool-path"
        s!"Memory pool path '{pool.path}' is used by both '{existing}' and '{pool.id}'"
        pool.lintPath], seenPaths)
  | none => ([], seenPaths.set pool.path pool.id)

/-- The loop over the warm pools, which checks the ids and registers the paths. -/
def warmPoolIssues : List String → Dict String String → List MemoryPoolWarm → List LintIssue
  | _, _, [] => []
  | warmIds, seenPaths, pool :: pools =>
      let lintPath := s!"memoryPools.warm.{pool.id.val}"
      let (issues, seenPaths) :=
        registerPath seenPaths ⟨pool.id.val, pool.path.val, s!"{lintPath}.path"⟩
      (if pool.id.val ∈ warmIds then
        [lintError "unique-memory-pool-id" s!"Duplicate memory pool id '{pool.id.val}'"
          s!"{lintPath}.id"]
      else []) ++ issues ++ warmPoolIssues (pool.id.val :: warmIds) seenPaths pools

def unknownRole (ids : List String) (role : String) : Bool :=
  !(role = "all" || '*' ∈ role.toList) && role ∉ ids

def memoryPoolIssues (chart : OrgChart) : List LintIssue :=
  match chart.memoryPools with
  | none => []
  | some pools =>
      let hot := registerPath .empty ⟨"hot", pools.hot.path.val, "memoryPools.hot.path"⟩
      hot.1 ++ warmPoolIssues [] hot.2 pools.warm ++
      (pools.cold.flatMap fun cold =>
        ((poolPaths pools).filter fun pool => cold.val.toList <:+: pool.path.toList).map fun pool =>
          lintError "no-cold-paths-in-pools"
            (s!"Memory pool '{pool.id}' path '{pool.path}' contains cold substring " ++
              s!"'{cold.val}'")
            pool.lintPath) ++
      (pools.warm.flatMap fun pool =>
        (pool.roles.filter (unknownRole (agentIds chart))).map fun role =>
          lintError "valid-memory-pool-role"
            s!"Memory pool '{pool.id.val}' references unknown role '{role}'"
            s!"memoryPools.warm.{pool.id.val}.roles") ++
      ((pools.hot.agents.getD []).filter (unknownRole (agentIds chart))).map fun agentId =>
        lintError "valid-memory-pool-role"
          s!"Memory pool 'hot' references unknown role '{agentId}'" "memoryPools.hot.agents"

end Linter

open Linter

def lintOrgChart (chart : OrgChart) : List LintIssue :=
  [reportsToIssues, teamLeadIssues, agentTeamIssues, orphanIssues, routingIssues, roleIssues,
    circularReportsIssues, agentIdIssues, inactiveTargetIssues, selfReportIssues, rootIssues,
    parentIssues, orgUnitIdIssues, groupIdIssues, membershipIssues, groupMemberIssues,
    openclawIdIssues, relationshipIssues, selfEscalationIssues, circularEscalationIssues,
    policyIssues, memoryPoolIssues].flatMap fun check => check chart

end Org

end Aof
