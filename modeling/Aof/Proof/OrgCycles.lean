import Aof.Org.Linter

/-!
# Cycles in an org chart

The linter follows reporting and escalation chains and counts the roots of the org units.  What it
reports is there; what it misses are chains that go on with a relationship that a later one of the
same agent replaces, and units that are their own ancestors.
-/

namespace Aof

namespace Org

open Linter PointerWalk

section Relations

variable (chart : OrgChart)

def ReportsTo (a b : String) : Prop :=
  ∃ agent ∈ chart.agents, agent.id.val = a ∧ truthy agent.reportsTo = some b

def EscalatesTo (a b : String) : Prop :=
  ∃ rel ∈ escalations chart, rel.fromAgentId.val = a ∧ rel.toAgentId.val = b

def HasParent (a b : String) : Prop :=
  ∃ unit ∈ chart.orgUnits, unit.id.val = a ∧ truthy unit.parentId = some b

/-- The agent escalates to `b`, but by its last relationship to another one. -/
def Replaced (a b : String) : Prop :=
  EscalatesTo chart a b ∧
    ((escalations chart).reverse.find? fun rel => rel.fromAgentId.val = a).map
      (·.toAgentId.val) ≠ some b

/-- There is one root, and it is an ancestor of every other unit. -/
structure IsTree (root : OrgUnit) : Prop where
  mem : root ∈ chart.orgUnits
  parent : truthy root.parentId = none
  unique : ∀ unit ∈ chart.orgUnits, truthy unit.parentId = none → unit.id = root.id
  reached : ∀ unit ∈ chart.orgUnits,
    Relation.ReflTransGen (HasParent chart) unit.id.val root.id.val

def Reports (rule : String) : Prop := ∃ issue ∈ lintOrgChart chart, issue.rule = rule

def Accepted : Prop := ∀ issue ∈ lintOrgChart chart, issue.severity ≠ .error

structure WellOrdered : Prop where
  reports : Acyclic (ReportsTo chart)
  escalations : Acyclic (EscalatesTo chart)
  units : chart.orgUnits ≠ [] → ∃ root, IsTree chart root

/-- What is reported is there. -/
structure ReportsSound : Prop where
  reports : Reports chart "no-circular-reports" → ¬Acyclic (ReportsTo chart)
  escalations : Reports chart "no-circular-escalation" → ¬Acyclic (EscalatesTo chart)
  roots : Reports chart "single-root" →
    1 < (chart.orgUnits.filter fun unit => (truthy unit.parentId).isNone).length

end Relations

section Rules

variable {chart : OrgChart} {rules : List String} {α : Type}

def HaveRules (rules : List String) (issues : List LintIssue) : Prop :=
  ∀ issue ∈ issues, issue.rule ∈ rules

theorem haveRules_nil : HaveRules rules [] := fun _ hissue => absurd hissue List.not_mem_nil

variable {rule : String} {left right : List LintIssue} {xs : List α}

theorem haveRules_error {message path : String} (hrule : rule ∈ rules) :
    HaveRules rules [lintError rule message path] :=
  fun _ hissue => List.mem_singleton.1 hissue ▸ hrule

theorem haveRules_append (hleft : HaveRules rules left) (hright : HaveRules rules right) :
    HaveRules rules (left ++ right) :=
  fun issue hissue => (List.mem_append.1 hissue).elim (hleft issue) (hright issue)

theorem haveRules_flatMap {f : α → List LintIssue} (hf : ∀ x, HaveRules rules (f x)) :
    HaveRules rules (xs.flatMap f) := by
  intro issue hissue
  obtain ⟨x, -, hx⟩ := List.mem_flatMap.1 hissue
  exact hf x issue hx

theorem haveRules_map {f : α → LintIssue} (hf : ∀ x, (f x).rule ∈ rules) :
    HaveRules rules (xs.map f) := by
  intro issue hissue
  obtain ⟨x, -, rfl⟩ := List.mem_map.1 hissue
  exact hf x

theorem haveRules_duplicates {issue : String → LintIssue} (hissue : ∀ id, (issue id).rule ∈ rules)
    (seen ids : List String) : HaveRules rules (duplicates issue seen ids) := by
  induction ids generalizing seen with
  | nil => exact haveRules_nil
  | cons id ids ih =>
      apply haveRules_append ?_ (ih _)
      split
      · exact fun found hfound => List.mem_singleton.1 hfound ▸ hissue id
      · exact haveRules_nil

def memoryPoolRules : List String :=
  ["unique-memory-pool-path", "unique-memory-pool-id", "no-cold-paths-in-pools",
    "valid-memory-pool-role"]

def checkRules : List ((OrgChart → List LintIssue) × List String) :=
  [(reportsToIssues, ["valid-reports-to"]), (teamLeadIssues, ["valid-team-lead"]),
    (agentTeamIssues, ["valid-agent-team"]), (orphanIssues, ["orphaned-agent"]),
    (routingIssues, ["valid-routing-target"]), (roleIssues, ["valid-role-agent"]),
    (circularReportsIssues, ["no-circular-reports"]), (agentIdIssues, ["unique-agent-id"]),
    (inactiveTargetIssues, ["inactive-routing-target"]), (selfReportIssues, ["no-self-report"]),
    (rootIssues, ["single-root"]), (parentIssues, ["valid-parent-id"]),
    (orgUnitIdIssues, ["unique-org-unit-id"]), (groupIdIssues, ["unique-group-id"]),
    (membershipIssues, ["valid-membership-agent", "valid-membership-unit"]),
    (groupMemberIssues, ["valid-group-members"]),
    (openclawIdIssues, ["missing-openclaw-agent-id"]),
    (relationshipIssues, ["valid-relationship-from", "valid-relationship-to"]),
    (selfEscalationIssues, ["no-self-escalation"]),
    (circularEscalationIssues, ["no-circular-escalation"]),
    (policyIssues, ["no-cold-in-warm", "valid-context-budget-thresholds"]),
    (memoryPoolIssues, memoryPoolRules)]

theorem haveRules_ite {p : Prop} [Decidable p] (hleft : HaveRules rules left)
    (hright : HaveRules rules right) :
    HaveRules rules (if p then left else right) := by
  split
  · exact hleft
  · exact hright

theorem haveRules_policies (policies : Option OrgPolicies) (path : String) :
    HaveRules ["no-cold-in-warm", "valid-context-budget-thresholds"]
      (checkPolicies policies path) := by
  cases policies with
  | none => exact haveRules_nil
  | some policies =>
      apply haveRules_append
      · cases policies.memoryTiers with
        | none => exact haveRules_nil
        | some tiers => exact haveRules_ite (haveRules_error (by simp)) haveRules_nil
      · cases policies.context with
        | none => exact haveRules_nil
        | some policy =>
            exact haveRules_append (haveRules_ite (haveRules_error (by simp)) haveRules_nil)
              (haveRules_ite (haveRules_error (by simp)) haveRules_nil)

theorem haveRules_registerPath (seenPaths : Dict String String) (pool : PoolPath) :
    HaveRules memoryPoolRules (registerPath seenPaths pool).1 := by
  unfold registerPath
  split
  · exact haveRules_error (by simp [memoryPoolRules])
  · exact haveRules_nil

theorem haveRules_warmPools (warmIds : List String) (seenPaths : Dict String String)
    (pools : List MemoryPoolWarm) :
    HaveRules memoryPoolRules (warmPoolIssues warmIds seenPaths pools) := by
  induction pools generalizing warmIds seenPaths with
  | nil => exact haveRules_nil
  | cons pool pools ih =>
      apply haveRules_append (haveRules_append ?_ (haveRules_registerPath _ _)) (ih _ _)
      exact haveRules_ite (haveRules_error (by simp [memoryPoolRules])) haveRules_nil

theorem haveRules_memoryPools (chart : OrgChart) :
    HaveRules memoryPoolRules (memoryPoolIssues chart) := by
  unfold memoryPoolIssues
  split
  · exact haveRules_nil
  · apply haveRules_append
    · apply haveRules_append
      · apply haveRules_append
        · exact haveRules_append (haveRules_registerPath _ _) (haveRules_warmPools _ _ _)
        · apply haveRules_flatMap
          exact fun cold => haveRules_map fun pool => by simp [lintError, memoryPoolRules]
      · apply haveRules_flatMap
        exact fun pool => haveRules_map fun role => by simp [lintError, memoryPoolRules]
    · exact haveRules_map fun agentId => by simp [lintError, memoryPoolRules]

theorem haveRules_references (chart : OrgChart) :
    HaveRules ["valid-reports-to"] (reportsToIssues chart) ∧
      HaveRules ["valid-team-lead"] (teamLeadIssues chart) ∧
      HaveRules ["valid-agent-team"] (agentTeamIssues chart) ∧
      HaveRules ["inactive-routing-target"] (inactiveTargetIssues chart) ∧
      HaveRules ["valid-parent-id"] (parentIssues chart) := by
  refine ⟨?_, ?_, ?_, ?_, ?_⟩ <;> refine haveRules_flatMap fun entry => ?_
  · split
    · exact haveRules_ite haveRules_nil (haveRules_error (by simp))
    · exact haveRules_nil
  · split
    · exact haveRules_ite haveRules_nil (haveRules_error (by simp))
    · exact haveRules_nil
  · split
    · exact haveRules_ite haveRules_nil (haveRules_error (by simp))
    · exact haveRules_nil
  · dsimp only
    split
    · apply haveRules_ite ?_ haveRules_nil
      exact fun issue hissue => List.mem_singleton.1 hissue ▸ List.mem_cons_self
    · exact haveRules_nil
  · split
    · exact haveRules_ite haveRules_nil (haveRules_error (by simp))
    · exact haveRules_nil

theorem haveRules_twoReferences (chart : OrgChart) :
    HaveRules ["valid-routing-target"] (routingIssues chart) ∧
      HaveRules ["valid-membership-agent", "valid-membership-unit"] (membershipIssues chart) ∧
      HaveRules ["valid-relationship-from", "valid-relationship-to"]
        (relationshipIssues chart) := by
  refine ⟨?_, ?_, ?_⟩ <;> refine haveRules_flatMap fun entry => haveRules_append ?_ ?_
  · split
    · exact haveRules_ite haveRules_nil (haveRules_error (by simp))
    · exact haveRules_nil
  · split
    · exact haveRules_ite haveRules_nil (haveRules_error (by simp))
    · exact haveRules_nil
  · exact haveRules_ite haveRules_nil (haveRules_error (by simp))
  · exact haveRules_ite haveRules_nil (haveRules_error (by simp))
  · exact haveRules_ite haveRules_nil (haveRules_error (by simp))
  · exact haveRules_ite haveRules_nil (haveRules_error (by simp))

theorem haveRules_orphans (chart : OrgChart) :
    HaveRules ["orphaned-agent"] (orphanIssues chart) := by
  apply haveRules_ite ?_ haveRules_nil
  exact haveRules_map fun agent => by simp [lintWarning]

theorem haveRules_check (chart : OrgChart) :
    ∀ check ∈ checkRules, HaveRules check.2 (check.1 chart) := by
  obtain ⟨hreports, hleads, hteams, hinactive, hparents⟩ := haveRules_references chart
  obtain ⟨hrouting, hmemberships, hrelationships⟩ := haveRules_twoReferences chart
  have hroles : HaveRules ["valid-role-agent"] (roleIssues chart) := by
    unfold roleIssues
    split
    · exact haveRules_nil
    · exact haveRules_flatMap fun role => haveRules_map fun agentId => List.mem_cons_self
  have hroots : HaveRules ["single-root"] (rootIssues chart) :=
    haveRules_ite (haveRules_error List.mem_cons_self) haveRules_nil
  have hmembers : HaveRules ["valid-group-members"] (groupMemberIssues chart) :=
    haveRules_flatMap fun group => haveRules_map fun memberId => List.mem_cons_self
  have hpolicies : HaveRules ["no-cold-in-warm", "valid-context-budget-thresholds"]
      (policyIssues chart) :=
    haveRules_append (haveRules_flatMap fun agent => haveRules_policies _ _)
      (haveRules_policies _ _)
  have hagents : HaveRules ["unique-agent-id"] (agentIdIssues chart) := by
    apply haveRules_duplicates
    exact fun _ => List.mem_cons_self
  have hgroups : HaveRules ["unique-group-id"] (groupIdIssues chart) := by
    apply haveRules_duplicates
    exact fun _ => List.mem_cons_self
  have hunits : HaveRules ["unique-org-unit-id"] (orgUnitIdIssues chart) := by
    apply haveRules_duplicates
    exact fun _ => List.mem_cons_self
  simp only [checkRules, List.forall_mem_cons]
  exact ⟨hreports, hleads, hteams, haveRules_orphans chart, hrouting, hroles,
    haveRules_map fun _ => List.mem_cons_self, hagents, hinactive,
    haveRules_map fun _ => List.mem_cons_self, hroots, hparents, hunits, hgroups, hmemberships,
    hmembers,
    haveRules_map fun _ => List.mem_cons_self, hrelationships,
    haveRules_map fun _ => List.mem_cons_self, haveRules_map fun _ => List.mem_cons_self,
    hpolicies, haveRules_memoryPools chart, fun _ hcheck => absurd hcheck List.not_mem_nil⟩

theorem Reports.exists_check (hreports : Reports chart rule) :
    ∃ check ∈ checkRules.filter fun check => rule ∈ check.2, ∃ issue, issue ∈ check.1 chart := by
  obtain ⟨issue, hissue, rfl⟩ := hreports
  obtain ⟨check, hcheck, hmem⟩ := List.mem_flatMap.1 hissue
  have hall : checkRules.map Prod.fst = [reportsToIssues, teamLeadIssues, agentTeamIssues,
      orphanIssues, routingIssues, roleIssues, circularReportsIssues, agentIdIssues,
      inactiveTargetIssues, selfReportIssues, rootIssues, parentIssues, orgUnitIdIssues,
      groupIdIssues, membershipIssues, groupMemberIssues, openclawIdIssues, relationshipIssues,
      selfEscalationIssues, circularEscalationIssues, policyIssues, memoryPoolIssues] := rfl
  rw [← hall] at hcheck
  obtain ⟨entry, hentry, rfl⟩ := List.mem_map.1 hcheck
  have hrule := haveRules_check chart entry hentry issue hmem
  exact ⟨entry, List.mem_filter.2 ⟨hentry, decide_eq_true hrule⟩, issue, hmem⟩

theorem Reports.circularReports (hreports : Reports chart "no-circular-reports") :
    ∃ agent ∈ chart.agents, hasCircularReports chart agent = true := by
  obtain ⟨check, hcheck, issue, hissue⟩ := hreports.exists_check
  have honly : checkRules.filter (fun check => "no-circular-reports" ∈ check.2) =
      [(circularReportsIssues, ["no-circular-reports"])] := by rfl
  rw [honly, List.mem_singleton] at hcheck
  subst hcheck
  obtain ⟨agent, hagent, -⟩ := List.mem_map.1 hissue
  exact ⟨agent, List.mem_filter.1 hagent⟩

theorem Reports.circularEscalation (hreports : Reports chart "no-circular-escalation") :
    ∃ startAgent ∈ (escalationMap chart).keys, hasCircularEscalation chart startAgent = true := by
  obtain ⟨check, hcheck, issue, hissue⟩ := hreports.exists_check
  have honly : checkRules.filter (fun check => "no-circular-escalation" ∈ check.2) =
      [(circularEscalationIssues, ["no-circular-escalation"])] := by rfl
  rw [honly, List.mem_singleton] at hcheck
  subst hcheck
  obtain ⟨startAgent, hstart, -⟩ := List.mem_map.1 hissue
  exact ⟨startAgent, List.mem_filter.1 hstart⟩

theorem Reports.roots (hreports : Reports chart "single-root") : 1 < (rootUnits chart).length := by
  obtain ⟨check, hcheck, issue, hissue⟩ := hreports.exists_check
  have honly : checkRules.filter (fun check => "single-root" ∈ check.2) =
      [(rootIssues, ["single-root"])] := by rfl
  rw [honly, List.mem_singleton] at hcheck
  subst hcheck
  by_contra hfew
  have hnone : rootIssues chart = [] := if_neg hfew
  dsimp only at hissue
  rw [hnone] at hissue
  exact List.not_mem_nil hissue

end Rules

theorem find?_of_nodup_map {α β : Type} [DecidableEq β] {f : α → β} {xs : List α} {x : α}
    (hnodup : (xs.map f).Nodup) (hx : x ∈ xs) : xs.find? (fun y => f y = f x) = some x := by
  obtain ⟨before, after, rfl⟩ := List.append_of_mem hx
  rw [List.find?_eq_some_iff_append]
  refine ⟨decide_eq_true rfl, before, after, rfl, fun y hy => ?_⟩
  rw [Bool.not_eq_true', decide_eq_false_iff_not]
  intro heq
  rw [List.map_append, List.map_cons] at hnodup
  exact List.disjoint_of_nodup_append hnodup (List.mem_map_of_mem hy)
    (heq ▸ List.mem_cons_self)

section Reports

variable {chart : OrgChart} {a b : String}

theorem mem_agentIds {id : String} :
    id ∈ agentIds chart ↔ ∃ agent ∈ chart.agents, agent.id.val = id := List.mem_map

theorem reportsTo_of_points (hpoints : Points (superior chart) a b) : ReportsTo chart a b := by
  unfold Points superior truthy at hpoints
  obtain ⟨hsome, hne⟩ := Option.filter_eq_some_iff.1 hpoints
  obtain ⟨agent, hfind, hreports⟩ := Option.bind_eq_some_iff.1 hsome
  refine ⟨agent, List.mem_of_find?_eq_some hfind, ?_, ?_⟩
  · simpa using List.find?_some hfind
  · rw [truthy, hreports, Option.filter_eq_some_iff]
    exact ⟨rfl, hne⟩

theorem points_of_reportsTo (hnodup : (agentIds chart).Nodup) (hreports : ReportsTo chart a b) :
    Points (superior chart) a b := by
  obtain ⟨agent, hagent, rfl, hsome⟩ := hreports
  rw [Points, superior, find?_of_nodup_map hnodup hagent]
  exact hsome

theorem mem_of_superior (a b : String) (hsome : superior chart a = some b) :
    b ∈ agentIds chart ++ chart.agents.filterMap (·.reportsTo) := by
  obtain ⟨agent, hagent, -, htruthy⟩ := reportsTo_of_points hsome
  apply List.mem_append_right
  exact List.mem_filterMap.2 ⟨agent, hagent, (Option.filter_eq_some_iff.1 htruthy).1⟩

theorem hasCircularReports_cases {agent : OrgAgent} (hagent : agent ∈ chart.agents)
    (hreports : (truthy agent.reportsTo).isSome) : hasCircularReports chart agent = true ∧
        (∃ a, Relation.TransGen (Points (superior chart)) a a) ∨
      hasCircularReports chart agent = false ∧ Ends (superior chart) agent.id.val := by
  have hmem : agent.id.val ∈ agentIds chart ++ chart.agents.filterMap (·.reportsTo) :=
    List.mem_append_left _ (mem_agentIds.2 ⟨agent, hagent, rfl⟩)
  rcases revisits_cases mem_of_superior hmem (Nat.lt_succ_self _) with
    ⟨hwalk, hcycle⟩ | ⟨hwalk, hends⟩
  · refine .inl ⟨?_, hcycle⟩
    rw [hasCircularReports, hreports, reportsFuel, hwalk]
    rfl
  · refine .inr ⟨?_, hends⟩
    rw [hasCircularReports, hreports, reportsFuel, hwalk]
    rfl

theorem acyclic_reportsTo (hnodup : (agentIds chart).Nodup)
    (hnone : ∀ agent ∈ chart.agents, hasCircularReports chart agent = false) :
    Acyclic (ReportsTo chart) := by
  intro a hcycle
  have hpoints := Relation.TransGen.mono (fun _ _ => points_of_reportsTo hnodup) _ _ hcycle
  obtain ⟨b, hfirst, -⟩ := Relation.TransGen.head'_iff.1 hcycle
  obtain ⟨agent, hagent, rfl, hreports⟩ := hfirst
  rcases hasCircularReports_cases hagent (by rw [hreports]; rfl) with
    ⟨hwalk, -⟩ | ⟨-, hends⟩
  · rw [hnone agent hagent] at hwalk
    cases hwalk
  · exact hends.not_cycle hpoints

theorem cycle_of_hasCircularReports {agent : OrgAgent} (hagent : agent ∈ chart.agents)
    (hwalk : hasCircularReports chart agent = true) : ¬Acyclic (ReportsTo chart) := by
  intro hacyclic
  rcases hasCircularReports_cases hagent (Bool.and_eq_true_iff.1 hwalk).1 with
    ⟨-, a, hcycle⟩ | ⟨hnot, -⟩
  · exact hacyclic a (Relation.TransGen.mono (fun _ _ => reportsTo_of_points) _ _ hcycle)
  · rw [hwalk] at hnot
    cases hnot

end Reports

section Escalations

variable {chart : OrgChart} {a b : String}

theorem get?_escalationMap (chart : OrgChart) (a : String) : (escalationMap chart).get? a =
      ((escalations chart).reverse.find? fun rel => rel.fromAgentId.val = a).map
        (·.toAgentId.val) := by
  rw [escalationMap, Dict.get?_foldl_set_latest, Dict.get?_empty, Option.or_none]

theorem escalatesTo_of_points (hpoints : Points (Linter.escalatesTo chart) a b) :
    EscalatesTo chart a b := by
  obtain ⟨hsome, -⟩ := Option.filter_eq_some_iff.1 hpoints
  rw [get?_escalationMap] at hsome
  obtain ⟨rel, hfind, hto⟩ := Option.map_eq_some_iff.1 hsome
  refine ⟨rel, List.mem_reverse.1 (List.mem_of_find?_eq_some hfind), ?_, hto⟩
  simpa using List.find?_some hfind

theorem points_of_escalatesTo (hescalates : EscalatesTo chart a b)
    (hlast : ¬Replaced chart a b) : Points (Linter.escalatesTo chart) a b := by
  have hget : (escalationMap chart).get? a = some b := by
    rw [get?_escalationMap]
    by_contra hother
    exact hlast ⟨hescalates, hother⟩
  obtain ⟨rel, -, -, rfl⟩ := hescalates
  rw [Points, Linter.escalatesTo, truthy, hget, Option.filter_eq_some_iff]
  exact ⟨rfl, decide_eq_true rel.toAgentId.property⟩

theorem mem_of_escalatesTo (a b : String) (hsome : Linter.escalatesTo chart a = some b) :
    b ∈ (escalationMap chart).keys ++ (escalationMap chart).values := by
  apply List.mem_append_right
  exact Dict.mem_values_iff_get?.2 ⟨a, (Option.filter_eq_some_iff.1 hsome).1⟩

theorem hasCircularEscalation_cases (ha : a ∈ (escalationMap chart).keys) :
    hasCircularEscalation chart a = true ∧
        (∃ c, Relation.TransGen (Points (Linter.escalatesTo chart)) c c) ∨
      hasCircularEscalation chart a = false ∧ Ends (Linter.escalatesTo chart) a := by
  have hmem : a ∈ (escalationMap chart).keys ++ (escalationMap chart).values :=
    List.mem_append_left _ ha
  rcases revisits_cases mem_of_escalatesTo hmem (Nat.lt_succ_self _) with
    ⟨hwalk, hcycle⟩ | ⟨hwalk, hends⟩
  · exact .inl ⟨decide_eq_true hwalk, hcycle⟩
  · refine .inr ⟨?_, hends⟩
    rw [hasCircularEscalation, escalationFuel, hwalk]
    rfl

theorem acyclic_escalatesTo
    (hnone : ∀ a ∈ (escalationMap chart).keys, hasCircularEscalation chart a = false)
    (hreplaced : ∀ a b, Replaced chart a b →
      ¬Relation.ReflTransGen (EscalatesTo chart) b a) : Acyclic (EscalatesTo chart) := by
  intro a hcycle
  have hpoints : Relation.TransGen (Points (Linter.escalatesTo chart)) a a := by
    refine Acyclic.transGen_of_back (fun x y hxy hyx => ?_) hcycle .refl
    exact points_of_escalatesTo hxy fun hold => hreplaced x y hold hyx
  obtain ⟨b, hfirst, -⟩ := Relation.TransGen.head'_iff.1 hpoints
  have hkey : a ∈ (escalationMap chart).keys :=
    Dict.mem_keys_iff.2 ⟨b, (Option.filter_eq_some_iff.1 hfirst).1⟩
  rcases hasCircularEscalation_cases hkey with ⟨hwalk, -⟩ | ⟨-, hends⟩
  · rw [hnone a hkey] at hwalk
    cases hwalk
  · exact hends.not_cycle hpoints

theorem cycle_of_hasCircularEscalation (ha : a ∈ (escalationMap chart).keys)
    (hwalk : hasCircularEscalation chart a = true) : ¬Acyclic (EscalatesTo chart) := by
  intro hacyclic
  rcases hasCircularEscalation_cases ha with ⟨-, c, hcycle⟩ | ⟨hnot, -⟩
  · exact hacyclic c (Relation.TransGen.mono (fun _ _ => escalatesTo_of_points) _ _ hcycle)
  · rw [hwalk] at hnot
    cases hnot

end Escalations

section Units

variable {chart : OrgChart} {a b : String}

def parentOf (chart : OrgChart) (id : String) : Option String :=
  (chart.orgUnits.find? fun unit => unit.id.val = id).bind fun unit => truthy unit.parentId

theorem points_of_hasParent (hnodup : (orgUnitIds chart).Nodup) (hparent : HasParent chart a b) :
    Points (parentOf chart) a b := by
  obtain ⟨unit, hunit, rfl, hsome⟩ := hparent
  rw [Points, parentOf, find?_of_nodup_map hnodup hunit]
  exact hsome

theorem IsTree.acyclic {root : OrgUnit} (htree : IsTree chart root)
    (hnodup : (orgUnitIds chart).Nodup) : Acyclic (HasParent chart) := by
  intro a hcycle
  have hpoints := Relation.TransGen.mono (fun _ _ => points_of_hasParent hnodup) _ _ hcycle
  obtain ⟨b, hfirst, -⟩ := Relation.TransGen.head'_iff.1 hcycle
  obtain ⟨unit, hunit, rfl, -⟩ := hfirst
  have hroot : parentOf chart root.id.val = none := by
    rw [parentOf, find?_of_nodup_map hnodup htree.mem]
    exact htree.parent
  have hpath := Relation.ReflTransGen.mono (fun _ _ => points_of_hasParent hnodup) _ _
    (htree.reached unit hunit)
  exact (Ends.of_path hpath (.of_none hroot)).not_cycle hpoints

theorem exists_root_above (hacyclic : Acyclic (HasParent chart))
    (hparents : ∀ unit ∈ chart.orgUnits, ∀ parentId, truthy unit.parentId = some parentId →
      parentId ∈ orgUnitIds chart) {unit : OrgUnit} (hunit : unit ∈ chart.orgUnits) :
    ∃ root ∈ chart.orgUnits, truthy root.parentId = none ∧
      Relation.ReflTransGen (HasParent chart) unit.id.val root.id.val := by
  classical
  have hflip : Acyclic fun x y => HasParent chart y x :=
    fun x hcycle => hacyclic x (Relation.transGen_swap.1 hcycle)
  have hsources : ∀ x y, HasParent chart y x → x ∈ (orgUnitIds chart).toFinset := by
    rintro x y ⟨child, hchild, -, hparent⟩
    exact List.mem_toFinset.2 (hparents child hchild x hparent)
  obtain ⟨rank, hrank⟩ := hflip.exists_rank hsources
  induction hrankUnit : rank unit.id.val using Nat.strong_induction_on generalizing unit with
  | _ n ih =>
      cases hparent : truthy unit.parentId with
      | none => exact ⟨unit, hunit, hparent, .refl⟩
      | some parentId =>
          obtain ⟨parent, hmem, rfl⟩ := List.mem_map.1 (hparents unit hunit parentId hparent)
          have hedge : HasParent chart unit.id.val parent.id.val := ⟨unit, hunit, rfl, hparent⟩
          have hless := hrank _ _ hedge
          obtain ⟨root, hroot, hnone, hpath⟩ := ih _ (hrankUnit ▸ hless) hmem rfl
          exact ⟨root, hroot, hnone, .head hedge hpath⟩

theorem exists_isTree (hacyclic : Acyclic (HasParent chart))
    (hparents : ∀ unit ∈ chart.orgUnits, ∀ parentId, truthy unit.parentId = some parentId →
      parentId ∈ orgUnitIds chart)
    (hroots : (rootUnits chart).length ≤ 1) (hne : chart.orgUnits ≠ []) :
    ∃ root, IsTree chart root := by
  have hunique : ∀ left ∈ chart.orgUnits, ∀ right ∈ chart.orgUnits,
      truthy left.parentId = none → truthy right.parentId = none → left = right := by
    intro left hleft right hright hleftNone hrightNone
    have hmemLeft : left ∈ rootUnits chart :=
      List.mem_filter.2 ⟨hleft, by rw [hleftNone]; rfl⟩
    have hmemRight : right ∈ rootUnits chart :=
      List.mem_filter.2 ⟨hright, by rw [hrightNone]; rfl⟩
    obtain ⟨only, honly⟩ := List.length_eq_one_iff.1
      (le_antisymm hroots (List.length_pos_of_mem hmemLeft))
    rw [honly, List.mem_singleton] at hmemLeft hmemRight
    exact hmemLeft.trans hmemRight.symm
  obtain ⟨unit, hunit⟩ := List.exists_mem_of_ne_nil _ hne
  obtain ⟨root, hroot, hnone, -⟩ := exists_root_above hacyclic hparents hunit
  refine ⟨root, hroot, hnone, fun other hother hotherNone => ?_, fun other hother => ?_⟩
  · rw [hunique other hother root hroot hotherNone hnone]
  · obtain ⟨top, htop, htopNone, hpath⟩ := exists_root_above hacyclic hparents hother
    rw [hunique root hroot top htop hnone htopNone]
    exact hpath

end Units

theorem nodup_of_duplicates {issue : String → LintIssue} {seen ids : List String}
    (hnone : ∀ id, issue id ∉ duplicates issue seen ids) : ids.Nodup ∧ ∀ id ∈ ids, id ∉ seen := by
  induction ids generalizing seen with
  | nil => exact ⟨List.nodup_nil, fun _ hid => absurd hid List.not_mem_nil⟩
  | cons id ids ih =>
      have hfirst : id ∉ seen := by
        intro hseen
        apply hnone id
        rw [duplicates, if_pos hseen]
        exact List.mem_cons_self
      have hrest : ∀ other, issue other ∉ duplicates issue (id :: seen) ids :=
        fun other hother => hnone other (List.mem_append_right _ hother)
      obtain ⟨hnodup, hfresh⟩ := ih hrest
      refine ⟨List.nodup_cons.2 ⟨fun hid => hfresh id hid List.mem_cons_self, hnodup⟩, ?_⟩
      intro other hother
      rcases List.mem_cons.1 hother with rfl | hlater
      · exact hfirst
      · exact fun hseen => hfresh other hlater (List.mem_cons_of_mem id hseen)

section Accepted

variable {chart : OrgChart} (haccepted : Accepted chart)

include haccepted

theorem not_mem_of_accepted {check : OrgChart → List LintIssue}
    (hcheck : check ∈ checkRules.map Prod.fst) {rule message path : String} :
    lintError rule message path ∉ check chart := by
  intro hissue
  exact haccepted _ (List.mem_flatMap.2 ⟨check, hcheck, hissue⟩) rfl

theorem nodup_agentIds : (agentIds chart).Nodup :=
  (nodup_of_duplicates fun _ => @not_mem_of_accepted _ haccepted agentIdIssues
    (by simp [checkRules]) _ _ _).1

theorem nodup_orgUnitIds : (orgUnitIds chart).Nodup :=
  (nodup_of_duplicates fun _ => @not_mem_of_accepted _ haccepted orgUnitIdIssues
    (by simp [checkRules]) _ _ _).1

theorem not_circularReports {agent : OrgAgent} (hagent : agent ∈ chart.agents) :
    hasCircularReports chart agent = false := by
  by_contra hwalk
  apply @not_mem_of_accepted _ haccepted circularReportsIssues (by simp [checkRules])
  exact List.mem_map.2 ⟨agent, List.mem_filter.2 ⟨hagent, Bool.eq_true_of_not_eq_false hwalk⟩, rfl⟩

theorem not_circularEscalation {startAgent : String}
    (hstart : startAgent ∈ (escalationMap chart).keys) :
    hasCircularEscalation chart startAgent = false := by
  by_contra hwalk
  apply @not_mem_of_accepted _ haccepted circularEscalationIssues (by simp [checkRules])
  exact List.mem_map.2
    ⟨startAgent, List.mem_filter.2 ⟨hstart, Bool.eq_true_of_not_eq_false hwalk⟩, rfl⟩

theorem length_rootUnits_le : (rootUnits chart).length ≤ 1 := by
  by_contra hmany
  apply @not_mem_of_accepted _ haccepted rootIssues (by simp [checkRules])
  rw [rootIssues, if_pos (Nat.lt_of_not_le hmany)]
  exact List.mem_cons_self

theorem parentId_mem {unit : OrgUnit} (hunit : unit ∈ chart.orgUnits) {parentId : String}
    (hparent : truthy unit.parentId = some parentId) : parentId ∈ orgUnitIds chart := by
  by_contra hmissing
  apply @not_mem_of_accepted _ haccepted parentIssues (by simp [checkRules])
  refine List.mem_flatMap.2 ⟨unit, hunit, ?_⟩
  rw [hparent]
  dsimp only
  rw [if_neg hmissing]
  exact List.mem_cons_self

end Accepted

theorem reportsSound (chart : OrgChart) : ReportsSound chart where
  reports := by
    intro hreports
    obtain ⟨agent, hagent, hwalk⟩ := hreports.circularReports
    exact cycle_of_hasCircularReports hagent hwalk
  escalations := by
    intro hreports
    obtain ⟨startAgent, hstart, hwalk⟩ := hreports.circularEscalation
    exact cycle_of_hasCircularEscalation hstart hwalk
  roots := fun hreports => hreports.roots

/-- The linter reports only what is there, and what it accepts is well ordered, unless a cycle goes
through a relationship that a later one replaces or through the parents of a unit. -/
theorem lint_cycles (chart : OrgChart) : ReportsSound chart ∧ (Accepted chart → (WellOrdered chart ↔
        (∀ a b, Replaced chart a b → ¬Relation.ReflTransGen (EscalatesTo chart) b a) ∧
          ∀ unit ∈ chart.orgUnits,
            ¬Relation.TransGen (HasParent chart) unit.id.val unit.id.val)) := by
  refine ⟨reportsSound chart, fun haccepted => ⟨?_, ?_⟩⟩
  · rintro ⟨-, hescalations, hunits⟩
    refine ⟨fun a b hreplaced hback => ?_, fun unit hunit => ?_⟩
    · exact hescalations a (.head' hreplaced.1 hback)
    · obtain ⟨root, htree⟩ := hunits (List.ne_nil_of_mem hunit)
      exact htree.acyclic (nodup_orgUnitIds haccepted) unit.id.val
  · rintro ⟨hreplaced, hunits⟩
    refine ⟨?_, ?_, fun hne => ?_⟩
    · exact acyclic_reportsTo (nodup_agentIds haccepted)
        fun agent hagent => not_circularReports haccepted hagent
    · exact acyclic_escalatesTo (fun a ha => not_circularEscalation haccepted ha) hreplaced
    · have hacyclic : Acyclic (HasParent chart) := by
        intro a hcycle
        obtain ⟨b, hfirst, -⟩ := Relation.TransGen.head'_iff.1 hcycle
        obtain ⟨unit, hunit, rfl, -⟩ := hfirst
        exact hunits unit hunit hcycle
      exact exists_isTree hacyclic (fun unit hunit parentId => parentId_mem haccepted hunit)
        (length_rootUnits_le haccepted) hne

def agentNamed (id : NonEmptyString) : OrgAgent where
  id := id
  openclawAgentId := some id.val
  team := some "core"

def lead : NonEmptyString := ⟨"lead", by decide⟩

def deputy : NonEmptyString := ⟨"deputy", by decide⟩

def founder : NonEmptyString := ⟨"founder", by decide⟩

def escalation (source target : NonEmptyString) : OrgRelationship where
  fromAgentId := source
  toAgentId := target
  type := .escalatesTo

def smallTeam (relationships : List OrgRelationship) : OrgChart where
  agents := [agentNamed lead, agentNamed deputy, agentNamed founder]
  teams := [{ id := ⟨"core", by decide⟩ }]
  relationships := relationships

theorem lint_cycles_smallTeam :
    Accepted (smallTeam [escalation deputy lead, escalation lead founder]) ∧
      Acyclic (EscalatesTo (smallTeam [escalation deputy lead, escalation lead founder])) := by
  have haccepted : Accepted (smallTeam [escalation deputy lead, escalation lead founder]) := by
    intro issue hissue
    have hnone : lintOrgChart (smallTeam [escalation deputy lead, escalation lead founder]) = [] :=
      by decide +kernel
    rw [hnone] at hissue
    exact absurd hissue List.not_mem_nil
  refine ⟨haccepted, (((lint_cycles _).2 haccepted).2 ⟨?_, ?_⟩).escalations⟩
  · rintro a b ⟨⟨rel, hrel, rfl, rfl⟩, hlast⟩
    exfalso
    apply hlast
    have hall : ∀ rel ∈ escalations (smallTeam [escalation deputy lead, escalation lead founder]),
        ((escalations (smallTeam [escalation deputy lead, escalation lead founder])).reverse.find?
          fun other => other.fromAgentId.val = rel.fromAgentId.val).map (·.toAgentId.val) =
            some rel.toAgentId.val := by
      decide +kernel
    exact hall rel hrel
  · exact fun unit hunit => absurd hunit List.not_mem_nil

def missedCycle : OrgChart :=
  smallTeam [escalation lead deputy, escalation lead founder, escalation deputy lead]

theorem cycle_missed : ¬∀ chart, ReportsSound chart ∧ (Accepted chart → WellOrdered chart) := by
  intro hall
  have haccepted : Accepted missedCycle := by
    intro issue hissue
    have hnone : lintOrgChart missedCycle = [] := by decide +kernel
    rw [hnone] at hissue
    exact absurd hissue List.not_mem_nil
  have hforth : EscalatesTo missedCycle "lead" "deputy" :=
    ⟨escalation lead deputy, by decide +kernel, rfl, rfl⟩
  have hback : EscalatesTo missedCycle "deputy" "lead" :=
    ⟨escalation deputy lead, by decide +kernel, rfl, rfl⟩
  exact ((hall missedCycle).2 haccepted).escalations "lead" (.head hforth (.single hback))

end Org

end Aof
