import Mathlib.Algebra.BigOperators.Group.Finset.Piecewise
import Aof.Lib.Acyclic
import Aof.Proof.Accepted
import Aof.Proof.FieldChecks

/-!
# `validateDAG` is exact

Where ids are distinct and references exist, Kahn's algorithm processes every hop if and only if the
dependencies can be ranked; a ranked graph has a root, and its search reaches every hop.
-/

namespace Aof

theorem duplicateErrors_eq_nil_iff {seen : List String} {hops : List Hop} :
    duplicateErrors seen hops = [] ↔ (∀ hop ∈ hops, hop.id ∉ seen) ∧ (hops.map Hop.id).Nodup := by
  refine ⟨duplicateErrors_eq_nil, ?_⟩
  induction hops generalizing seen with
  | nil => intro _; rfl
  | cons hop rest ih =>
      rintro ⟨hfresh, hnodup⟩
      obtain ⟨hself, hrest⟩ := List.nodup_cons.mp hnodup
      rw [duplicateErrors, if_neg (hfresh hop List.mem_cons_self), List.nil_append]
      apply ih
      refine ⟨?_, hrest⟩
      intro other hother hmem
      rcases List.mem_cons.mp hmem with hsame | hseen
      · exact hself (hsame ▸ List.mem_map_of_mem hother)
      · exact hfresh other (List.mem_cons_of_mem hop hother) hseen

theorem danglingErrors_eq_nil_iff {hops : List Hop} {hop : Hop} :
    danglingErrors (hops.map Hop.id) hop = [] ↔
      ∀ dep ∈ hop.dependsOn, ∃ pred ∈ hops, pred.id = dep := by
  simp [danglingErrors, List.filter_eq_nil_iff]

section Graph

variable {definition : WorkflowDefinition}

theorem ReferencesExist.mem_ids (hreferences : ReferencesExist definition) :
    ∀ hop ∈ definition.hops, ∀ dep ∈ hop.dependsOn, dep ∈ definition.hops.map Hop.id := by
  intro hop hhop dep hdep
  obtain ⟨pred, hpred, rfl⟩ := hreferences hop hhop dep hdep
  exact List.mem_map_of_mem hpred

/-- A rank that grows from every hop to those that depend on it. -/
def RanksHops (definition : WorkflowDefinition) (rank : String → Nat) : Prop :=
  ∀ hop ∈ definition.hops, ∀ dep ∈ hop.dependsOn, rank dep < rank hop.id

theorem exists_rank_iff_acyclic (hreferences : ReferencesExist definition) :
    (∃ rank, RanksHops definition rank) ↔ Acyclic (Precedes definition) := by
  constructor
  · rintro ⟨rank, hrank⟩
    have hedge : ∀ dep id, Precedes definition dep id → rank dep < rank id := by
      rintro dep id ⟨hop, hhop, rfl, hdep⟩
      exact hrank hop hhop dep hdep
    exact Acyclic.of_rank hedge
  · intro hacyclic
    have hsources : ∀ dep id, Precedes definition dep id →
        dep ∈ (definition.hops.map Hop.id).toFinset := by
      rintro dep id ⟨hop, hhop, -, hdep⟩
      exact List.mem_toFinset.mpr (hreferences.mem_ids hop hhop dep hdep)
    obtain ⟨rank, hrank⟩ := hacyclic.exists_rank hsources
    exact ⟨rank, fun hop hhop dep hdep => hrank dep hop.id ⟨hop, hhop, rfl, hdep⟩⟩

theorem cycleErrors_eq_nil_iff (hids : DistinctIds definition)
    (hreferences : ReferencesExist definition) :
    cycleErrors definition.hops = [] ↔ ∃ rank, RanksHops definition rank := by
  constructor
  · exact exists_rank_of_cycleErrors hids hreferences.mem_ids
  · rintro ⟨rank, hrank⟩
    have hedges : ∀ edge ∈ hopEdges definition.hops,
        edge.1 ∈ definition.hops.map Hop.id ∧ edge.2 ∈ definition.hops.map Hop.id := by
      intro edge hedge
      obtain ⟨hop, hhop, hsource, htarget⟩ := mem_hopEdges.mp hedge
      exact ⟨hreferences.mem_ids hop hhop _ hsource, htarget ▸ List.mem_map_of_mem hhop⟩
    have hranked : ∀ edge ∈ hopEdges definition.hops, rank edge.1 < rank edge.2 := by
      intro edge hedge
      obtain ⟨hop, hhop, hsource, htarget⟩ := mem_hopEdges.mp hedge
      exact htarget ▸ hrank hop hhop edge.1 hsource
    have hsuccessors : ∀ u ∈ definition.hops.map Hop.id,
        ((buildAdjacency definition.hops).get? u).getD [] =
          Kahn.successorsOf (hopEdges definition.hops) u := by
      intro u hu
      rw [buildAdjacency_get? hids hu, Option.getD_some]
    have hprocessed := Kahn.processed_of_rank hids hsuccessors hedges hranked
      (kahn_progress hids hreferences.mem_ids)
    rw [List.length_map] at hprocessed
    simp [cycleErrors, kahn, hprocessed]

theorem exists_rank_of_order (hids : DistinctIds definition) {order : List Hop}
    (horder : TopologicalOrder definition order) : ∃ rank, RanksHops definition rank := by
  obtain ⟨hperm, hbefore⟩ := horder
  have hnodup : (order.map Hop.id).Nodup := ((hperm.map Hop.id).nodup_iff).mpr hids
  refine ⟨(order.map Hop.id).idxOf, ?_⟩
  intro hop hhop dep hdep
  obtain ⟨before, after, hsplit⟩ := List.append_of_mem (hperm.mem_iff.mpr hhop)
  have hmem := hbefore before hop after hsplit dep hdep
  have hmap : order.map Hop.id = before.map Hop.id ++ hop.id :: after.map Hop.id := by
    rw [hsplit, List.map_append, List.map_cons]
  have hfresh : hop.id ∉ before.map Hop.id := by
    rw [hmap, List.nodup_append] at hnodup
    exact fun hself => hnodup.2.2 _ hself _ List.mem_cons_self rfl
  change (order.map Hop.id).idxOf dep < (order.map Hop.id).idxOf hop.id
  rw [hmap, List.idxOf_append_of_mem hmem, List.idxOf_append_of_notMem hfresh]
  have hlt := List.idxOf_lt_length_of_mem hmem
  omega

theorem exists_order_of_rank (hreferences : ReferencesExist definition) {rank : String → Nat}
    (hrank : RanksHops definition rank) : ∃ order, TopologicalOrder definition order := by
  let le : Hop → Hop → Prop := fun a b => rank a.id ≤ rank b.id
  have : Std.Total le := ⟨fun a b => le_total (rank a.id) (rank b.id)⟩
  have : IsTrans Hop le := ⟨fun _ _ _ hab hbc => Nat.le_trans hab hbc⟩
  have hperm : (definition.hops.insertionSort le).Perm definition.hops :=
    List.perm_insertionSort le definition.hops
  refine ⟨definition.hops.insertionSort le, hperm, ?_⟩
  intro before hop after hsplit dep hdep
  have hsorted := List.pairwise_insertionSort le definition.hops
  have hhop : hop ∈ definition.hops := by
    apply hperm.mem_iff.mp
    simp [hsplit]
  obtain ⟨pred, hpred, rfl⟩ := hreferences hop hhop dep hdep
  have hlt := hrank hop hhop pred.id hdep
  have hmem := hperm.mem_iff.mpr hpred
  rw [hsplit] at hmem hsorted
  rcases List.mem_append.mp hmem with hbefore | hafter
  · exact List.mem_map_of_mem hbefore
  · exfalso
    rcases List.mem_cons.mp hafter with rfl | hafter
    · exact lt_irrefl _ hlt
    · have hle : rank hop.id ≤ rank pred.id :=
        (List.pairwise_cons.mp (List.pairwise_append.mp hsorted).2.1).1 pred hafter
      omega

theorem exists_root {rank : String → Nat} (hreferences : ReferencesExist definition)
    (hrank : RanksHops definition rank) (hhops : definition.hops ≠ []) :
    ∃ hop ∈ definition.hops, hop.dependsOn = [] := by
  obtain ⟨hop, hhop⟩ := List.exists_mem_of_ne_nil _ hhops
  induction hbound : rank hop.id using Nat.strong_induction_on generalizing hop with
  | _ bound ih =>
      cases hdeps : hop.dependsOn with
      | nil => exact ⟨hop, hhop, hdeps⟩
      | cons dep rest =>
          have hdep : dep ∈ hop.dependsOn := by simp [hdeps]
          obtain ⟨pred, hpred, rfl⟩ := hreferences hop hhop dep hdep
          exact ih (rank pred.id) (hbound ▸ hrank hop hhop pred.id hdep) pred hpred rfl

end Graph

section Search

variable {adjacency : Dict String (List String)} {s : Finset String}

def neighborsOf (adjacency : Dict String (List String)) (id : String) : List String :=
  (adjacency.get? id).getD []

def unexpanded (adjacency : Dict String (List String)) (s : Finset String)
    (visited : List String) : Nat :=
  ∑ id ∈ s.filter (· ∉ visited), (neighborsOf adjacency id).length

theorem unexpanded_visit (hs : ∀ id, id ∉ s → neighborsOf adjacency id = []) {id : String}
    {visited : List String} (hfresh : id ∉ visited) :
    (neighborsOf adjacency id).length + unexpanded adjacency s (id :: visited) =
      unexpanded adjacency s visited := by
  have herase : s.filter (· ∉ id :: visited) = (s.filter (· ∉ visited)).erase id := by
    ext other
    simp only [Finset.mem_filter, Finset.mem_erase, List.mem_cons, not_or]
    tauto
  unfold unexpanded
  rw [herase]
  by_cases hid : id ∈ s
  · exact Finset.add_sum_erase _ (fun id => (neighborsOf adjacency id).length)
      (Finset.mem_filter.mpr ⟨hid, hfresh⟩)
  · rw [hs id hid, Finset.erase_eq_of_notMem fun hmem => hid (Finset.mem_filter.mp hmem).1]
    simp

theorem reachableFrom_closed (hs : ∀ id, id ∉ s → neighborsOf adjacency id = []) (fuel : Nat)
    {queue visited : List String} (hfuel : queue.length + unexpanded adjacency s visited ≤ fuel) :
    visited ⊆ reachableFrom adjacency fuel queue visited ∧
      queue ⊆ reachableFrom adjacency fuel queue visited ∧
      ∀ id ∈ reachableFrom adjacency fuel queue visited, id ∉ visited →
        neighborsOf adjacency id ⊆ reachableFrom adjacency fuel queue visited := by
  induction fuel generalizing queue visited with
  | zero =>
      obtain rfl : queue = [] := List.length_eq_zero_iff.mp (by omega)
      exact ⟨List.Subset.refl _, List.nil_subset _, fun _ hmem hfresh => absurd hmem hfresh⟩
  | succ fuel ih =>
      cases queue with
      | nil => exact ⟨List.Subset.refl _, List.nil_subset _, fun _ hmem hfresh => absurd hmem hfresh⟩
      | cons current queue =>
          rw [List.length_cons] at hfuel
          rw [reachableFrom]
          split
          · rename_i hvisited
            obtain ⟨hkept, hqueue, hclosed⟩ := @ih queue visited (by omega)
            exact ⟨hkept, List.cons_subset.mpr ⟨hkept hvisited, hqueue⟩, hclosed⟩
          · rename_i hfresh
            have hexpand := unexpanded_visit hs hfresh
            have hfilter := List.length_filter_le (· ∉ current :: visited)
              (neighborsOf adjacency current)
            obtain ⟨hkept, hqueue, hclosed⟩ := @ih
              (queue ++ (neighborsOf adjacency current).filter (· ∉ current :: visited))
              (current :: visited) (by rw [List.length_append]; omega)
            obtain ⟨hcurrent, hvisited⟩ := List.cons_subset.mp hkept
            obtain ⟨hrest, hneighbors⟩ := List.append_subset.mp hqueue
            refine ⟨hvisited, List.cons_subset.mpr ⟨hcurrent, hrest⟩, ?_⟩
            intro id hid hnew
            by_cases hsame : id = current
            · subst hsame
              intro neighbor hneighbor
              by_cases hseen : neighbor ∈ id :: visited
              · exact hkept hseen
              · apply hneighbors
                exact List.mem_filter.mpr ⟨hneighbor, by simpa using hseen⟩
            · exact hclosed id hid (List.not_mem_cons_of_ne_of_not_mem hsame hnew)

theorem sum_successorsOf_le (edges : List (String × String)) (s : Finset String) :
    ∑ id ∈ s, (Kahn.successorsOf edges id).length ≤ edges.length := by
  induction edges with
  | nil => simp [Kahn.successorsOf]
  | cons edge rest ih =>
      have hcons : ∀ id, (Kahn.successorsOf (edge :: rest) id).length =
          (if edge.1 = id then 1 else 0) + (Kahn.successorsOf rest id).length := by
        intro id
        by_cases hsource : edge.1 = id
        · simp [Kahn.successorsOf, hsource, Nat.add_comm]
        · simp [Kahn.successorsOf, hsource]
      have hone : ∑ id ∈ s, (if edge.1 = id then 1 else 0) ≤ 1 := by
        rw [Finset.sum_ite_eq]
        split <;> omega
      rw [Finset.sum_congr rfl fun id _ => hcons id, Finset.sum_add_distrib, List.length_cons]
      omega

theorem length_hopEdges (hops : List Hop) :
    (hopEdges hops).length = (hops.map fun hop => hop.dependsOn.length).sum := by
  simp [hopEdges, List.length_flatMap]

theorem neighborsOf_buildAdjacency {definition : WorkflowDefinition}
    (hids : DistinctIds definition) (id : String) :
    neighborsOf (buildAdjacency definition.hops) id =
      if id ∈ definition.hops.map Hop.id then Kahn.successorsOf (hopEdges definition.hops) id
      else [] := by
  unfold neighborsOf
  split
  · rename_i hid
    rw [buildAdjacency_get? hids hid, Option.getD_some]
  · rename_i hid
    rw [get?_buildAdjacency hids, find?_id_eq_none.mpr hid]
    rfl

theorem unreachableErrors_eq_nil {definition : WorkflowDefinition} {rank : String → Nat}
    (hids : DistinctIds definition) (hreferences : ReferencesExist definition)
    (hrank : RanksHops definition rank) : unreachableErrors definition.hops = [] := by
  let ids := definition.hops.map Hop.id
  let roots := (definition.hops.filter fun hop => hop.dependsOn.length = 0).map Hop.id
  have hneighbors := neighborsOf_buildAdjacency hids
  have hleaf : ∀ id, id ∉ ids.toFinset → neighborsOf (buildAdjacency definition.hops) id = [] := by
    intro id hid
    rw [hneighbors, if_neg fun hmem => hid (List.mem_toFinset.mpr hmem)]
  have hedges : unexpanded (buildAdjacency definition.hops) ids.toFinset [] ≤
      (definition.hops.map fun hop => hop.dependsOn.length).sum := by
    have hsame : ∀ id ∈ ids.toFinset.filter (· ∉ []),
        (neighborsOf (buildAdjacency definition.hops) id).length =
          (Kahn.successorsOf (hopEdges definition.hops) id).length := by
      intro id hid
      rw [hneighbors, if_pos (List.mem_toFinset.mp (Finset.mem_filter.mp hid).1)]
    rw [← length_hopEdges, unexpanded, Finset.sum_congr rfl hsame]
    exact sum_successorsOf_le _ _
  have hroots : roots.length ≤ definition.hops.length := by
    rw [List.length_map]
    exact List.length_filter_le _ _
  obtain ⟨-, hqueued, hclosed⟩ := reachableFrom_closed hleaf
    (definition.hops.length + (definition.hops.map fun hop => hop.dependsOn.length).sum)
    (Nat.add_le_add hroots hedges)
  have hreached : ∀ hop ∈ definition.hops, hop.id ∈ reachableFrom (buildAdjacency definition.hops)
      (definition.hops.length + (definition.hops.map fun hop => hop.dependsOn.length).sum)
      roots [] := by
    intro hop
    induction hbound : rank hop.id using Nat.strong_induction_on generalizing hop with
    | _ bound ih =>
        intro hhop
        cases hdeps : hop.dependsOn with
        | nil =>
            apply hqueued
            exact List.mem_map_of_mem (List.mem_filter.mpr ⟨hhop, by simp [hdeps]⟩)
        | cons dep rest =>
            have hdep : dep ∈ hop.dependsOn := by simp [hdeps]
            obtain ⟨pred, hpred, rfl⟩ := hreferences hop hhop dep hdep
            have hvisited := ih (rank pred.id) (hbound ▸ hrank hop hhop pred.id hdep) pred rfl hpred
            apply hclosed pred.id hvisited List.not_mem_nil
            rw [hneighbors, if_pos (List.mem_map_of_mem hpred)]
            apply List.mem_map.mpr
            refine ⟨(pred.id, hop.id), List.mem_filter.mpr ⟨?_, by simp⟩, rfl⟩
            exact mem_hopEdges.mpr ⟨hop, hhop, hdep, rfl⟩
  have hnone : (definition.hops.filter fun hop => hop.id ∉ reachableFrom
      (buildAdjacency definition.hops)
      (definition.hops.length + (definition.hops.map fun hop => hop.dependsOn.length).sum)
      roots []) = [] := by
    apply List.filter_eq_nil_iff.mpr
    intro hop hhop
    simp [hreached hop hhop]
  unfold unreachableErrors
  simp only
  split
  · rw [hnone]
    rfl
  · rfl

end Search

section Whole

variable {definition : WorkflowDefinition}

theorem validFields_iff {hop : Hop} : ValidFields definition hop ↔
      timeoutErrors hop = [] ∧ escalateToErrors hop = [] ∧ conditionErrors hop = [] ∧
        referenceErrors (definition.hops.map Hop.id) hop = [] := by
  rw [timeoutErrors_eq_nil, escalateToErrors_eq_nil, conditionErrors_eq_nil,
    referenceErrors_eq_nil]
  constructor
  · intro hvalid
    exact ⟨hvalid.timeout, hvalid.escalateTo,
      fun condition hcondition => ⟨hvalid.depth condition hcondition,
        hvalid.nodes condition hcondition⟩, hvalid.mentions⟩
  · rintro ⟨htimeout, hescalateTo, hsize, hmentions⟩
    exact ⟨htimeout, hescalateTo, fun condition hcondition => (hsize condition hcondition).1,
      fun condition hcondition => (hsize condition hcondition).2, hmentions⟩

theorem validFields_of_validateDAG (haccepted : validateDAG definition = []) :
    ∀ hop ∈ definition.hops, ValidFields definition hop := by
  simp only [validateDAG, List.append_eq_nil_iff, List.flatMap_eq_nil_iff] at haccepted
  obtain ⟨⟨⟨⟨-, htimeouts⟩, hescalations⟩, hconditions⟩, hreferences⟩ := haccepted
  intro hop hhop
  exact validFields_iff.mpr ⟨htimeouts hop hhop, hescalations hop hhop, hconditions hop hhop,
    hreferences hop hhop⟩

theorem validDefinition_of_validateDAG (haccepted : validateDAG definition = []) :
    ValidDefinition definition := by
  have hwf := WellFormed.of_validateDAG haccepted
  have hreferences : ReferencesExist definition :=
    fun _ hhop _ hdep => hwf.exists_hop_of_dep hhop hdep
  obtain ⟨rank, hrank⟩ := hwf.ranked
  exact ⟨hwf.ids_nodup, hreferences, exists_order_of_rank hreferences hrank,
    validFields_of_validateDAG haccepted⟩

theorem validateDAG_of_validDefinition (hhops : definition.hops ≠ [])
    (hvalid : ValidDefinition definition) : validateDAG definition = [] := by
  obtain ⟨order, horder⟩ := hvalid.order
  obtain ⟨rank, hrank⟩ := exists_rank_of_order hvalid.ids horder
  obtain ⟨root, hroot, hdeps⟩ := exists_root hvalid.references hrank hhops
  have hroots : (definition.hops.filter fun hop => hop.dependsOn.length = 0).length ≠ 0 := by
    intro hnone
    have hmem : root ∈ definition.hops.filter fun hop => hop.dependsOn.length = 0 :=
      List.mem_filter.mpr ⟨hroot, by simp [hdeps]⟩
    rw [List.length_eq_zero_iff.mp hnone] at hmem
    cases hmem
  simp only [validateDAG, List.append_eq_nil_iff, List.flatMap_eq_nil_iff]
  refine ⟨⟨⟨⟨⟨⟨⟨⟨?_, ?_⟩, ?_⟩, ?_⟩, ?_⟩, ?_⟩, ?_⟩, ?_⟩, ?_⟩
  · exact duplicateErrors_eq_nil_iff.mpr ⟨fun _ _ => List.not_mem_nil, hvalid.ids⟩
  · intro hop hhop
    exact danglingErrors_eq_nil_iff.mpr (hvalid.references hop hhop)
  · exact if_neg hroots
  · exact (cycleErrors_eq_nil_iff hvalid.ids hvalid.references).mpr ⟨rank, hrank⟩
  · exact unreachableErrors_eq_nil hvalid.ids hvalid.references hrank
  · intro hop hhop
    exact (validFields_iff.mp (hvalid.fields hop hhop)).1
  · intro hop hhop
    exact (validFields_iff.mp (hvalid.fields hop hhop)).2.1
  · intro hop hhop
    exact (validFields_iff.mp (hvalid.fields hop hhop)).2.2.1
  · intro hop hhop
    exact (validFields_iff.mp (hvalid.fields hop hhop)).2.2.2

/-- The schema demands at least one hop.  Of such a definition `validateDAG` reports no error if
and only if it is valid; with distinct ids and existing references it reports a cycle if and only if
there is one, and if there is none, then some hop is a root and no hop is unreachable. -/
theorem validateDAG_exact (hhops : definition.hops ≠ []) :
    (validateDAG definition = [] ↔ ValidDefinition definition) ∧
    (DistinctIds definition → ReferencesExist definition → (cycleErrors definition.hops ≠ [] ↔
        ∃ id, Relation.TransGen (Precedes definition) id id) ∧ (cycleErrors definition.hops = [] →
        (∃ hop ∈ definition.hops, hop.dependsOn = []) ∧
          unreachableErrors definition.hops = [])) := by
  refine ⟨⟨validDefinition_of_validateDAG, validateDAG_of_validDefinition hhops⟩, ?_⟩
  intro hids hreferences
  have hcycles := cycleErrors_eq_nil_iff hids hreferences
  constructor
  · rw [ne_eq, hcycles, exists_rank_iff_acyclic hreferences, Acyclic, not_forall_not]
  · intro hnone
    obtain ⟨rank, hrank⟩ := hcycles.mp hnone
    exact ⟨exists_root hreferences hrank hhops, unreachableErrors_eq_nil hids hreferences hrank⟩

def gated : WorkflowDefinition :=
  { name := "gated"
    hops := [{ id := "build", role := "swe" },
      { id := "deploy", role := "ops", dependsOn := ["build", "build"], timeout := some "30m",
        escalateTo := some "lead",
        condition := some (.and [.hasTag "release", .not (.hopStatus "build" "failed")]) }] }

theorem gated_valid : ValidDefinition gated := by
  have hhops : gated.hops ≠ [] := by decide
  exact (validateDAG_exact hhops).1.mp (by decide +kernel)

end Whole

end Aof
