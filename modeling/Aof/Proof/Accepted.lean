import Aof.Schemas.DefinitionRules

/-!
# Accepted definitions

What an empty error list of `validateDAG` says about the graph: ids are unique, predecessors
exist, some hop is a root, and the hops can be ranked along their dependencies.
-/

namespace Aof

structure WellFormed (definition : WorkflowDefinition) : Prop where
  ids_nodup : (definition.hops.map Hop.id).Nodup
  deps_exist : ∀ hop ∈ definition.hops, ∀ dep ∈ hop.dependsOn, dep ∈ definition.hops.map Hop.id
  root : ∃ hop ∈ definition.hops, hop.dependsOn = []
  ranked : ∃ rank : String → Nat,
    ∀ hop ∈ definition.hops, ∀ dep ∈ hop.dependsOn, rank dep < rank hop.id

variable {hops : List Hop} {hop other : Hop} {definition : WorkflowDefinition}

theorem duplicateErrors_eq_nil {seen : List String} (hnone : duplicateErrors seen hops = []) :
    (∀ hop ∈ hops, hop.id ∉ seen) ∧ (hops.map Hop.id).Nodup := by
  induction hops generalizing seen with
  | nil => simp
  | cons hop rest ih =>
      simp only [duplicateErrors, List.append_eq_nil_iff, ite_eq_right_iff, List.cons_ne_nil,
        imp_false] at hnone
      obtain ⟨hfresh, hrest⟩ := ih hnone.2
      refine ⟨?_, ?_⟩
      · intro other hother
        rcases List.mem_cons.1 hother with rfl | hother
        · exact hnone.1
        · exact fun hseen => hfresh other hother (List.mem_cons_of_mem _ hseen)
      · rw [List.map_cons, List.nodup_cons]
        refine ⟨fun hmem => ?_, hrest⟩
        obtain ⟨other, hother, hid⟩ := List.mem_map.1 hmem
        exact hfresh other hother (hid ▸ List.mem_cons_self)

theorem danglingErrors_eq_nil {hopIds : List String} (hnone : danglingErrors hopIds hop = []) :
    ∀ dep ∈ hop.dependsOn, dep ∈ hopIds := by
  intro dep hdep
  by_contra hout
  rw [danglingErrors, List.map_eq_nil_iff, List.filter_eq_nil_iff] at hnone
  exact hnone dep hdep (by simpa using hout)

def hopEdges (hops : List Hop) : List (String × String) :=
  hops.flatMap fun hop => hop.dependsOn.map fun dep => (dep, hop.id)

theorem mem_hopEdges {edge : String × String} :
    edge ∈ hopEdges hops ↔ ∃ hop ∈ hops, edge.1 ∈ hop.dependsOn ∧ edge.2 = hop.id := by
  obtain ⟨source, target⟩ := edge
  simp only [hopEdges, List.mem_flatMap, List.mem_map, Prod.mk.injEq]
  grind

def addNeighbor (adjacency : Dict String (List String)) (edge : String × String) :
    Dict String (List String) :=
  match adjacency.get? edge.1 with
  | some neighbors => adjacency.set edge.1 (neighbors ++ [edge.2])
  | none => adjacency

theorem get?_foldl_addNeighbor (edges : List (String × String))
    (adjacency : Dict String (List String)) (u : String) :
    (edges.foldl addNeighbor adjacency).get? u =
      (adjacency.get? u).map (· ++ Kahn.successorsOf edges u) := by
  induction edges generalizing adjacency with
  | nil => simp [Kahn.successorsOf]
  | cons edge rest ih =>
      rw [List.foldl_cons, ih]
      cases hsource : adjacency.get? edge.1 with
      | none =>
          have hu : edge.1 = u → adjacency.get? u = none := fun h => h ▸ hsource
          by_cases heq : edge.1 = u
          · simp [addNeighbor, hsource, hu heq]
          · simp [addNeighbor, hsource, Kahn.successorsOf, heq]
      | some neighbors =>
          by_cases heq : edge.1 = u
          · subst heq
            simp [addNeighbor, hsource, Kahn.successorsOf]
          · simp [addNeighbor, hsource, Kahn.successorsOf, heq, Dict.get?_set_of_ne]

def addInDegree (inDegree : Dict String Int) (edge : String × String) : Dict String Int :=
  inDegree.set edge.2 ((inDegree.get? edge.2).getD 0 + 1)

theorem get?_foldl_addInDegree (edges : List (String × String)) (inDegree : Dict String Int)
    (htargets : ∀ edge ∈ edges, (inDegree.get? edge.2).isSome) (v : String) :
    (edges.foldl addInDegree inDegree).get? v =
      (inDegree.get? v).map (· + (Kahn.openEdges edges [] v : Int)) := by
  induction edges generalizing inDegree with
  | nil => simp [Kahn.openEdges]
  | cons edge rest ih =>
      obtain ⟨degree, hdegree⟩ := Option.isSome_iff_exists.1 (htargets edge List.mem_cons_self)
      have hrest : ∀ other ∈ rest, ((addInDegree inDegree edge).get? other.2).isSome := by
        intro other hother
        rw [addInDegree, Dict.get?_set]
        split
        · rfl
        · exact htargets other (List.mem_cons_of_mem _ hother)
      rw [List.foldl_cons, ih _ hrest]
      by_cases heq : edge.2 = v
      · subst heq
        simp only [addInDegree, hdegree, Dict.get?_set_self, Option.getD_some, Option.map_some,
          Kahn.openEdges, List.countP_cons]
        simp
        omega
      · simp [addInDegree, Dict.get?_set_of_ne _ _ heq, Kahn.openEdges, heq]

section Tables

variable {hops : List Hop}

theorem find?_id_eq_none {id : String} :
    hops.find? (fun hop => hop.id = id) = none ↔ id ∉ hops.map Hop.id := by
  simp only [List.find?_eq_none, decide_eq_true_eq, List.mem_map, not_exists, not_and]

theorem get?_foldl_set_id {Value : Type} (value : Hop → Value)
    (hnodup : (hops.map Hop.id).Nodup) (id : String) :
    (hops.foldl (fun table hop => table.set hop.id (value hop)) Dict.empty).get? id =
      (hops.find? fun hop => hop.id = id).map value := by
  rw [Dict.get?_foldl_set Hop.id value hops Dict.empty hnodup]
  simp

variable (hnodup : (hops.map Hop.id).Nodup)
include hnodup

theorem get?_buildAdjacency (u : String) :
    (buildAdjacency hops).get? u = (hops.find? fun hop => hop.id = u).map fun _ =>
      Kahn.successorsOf (hopEdges hops) u := by
  have hfold : buildAdjacency hops = (hopEdges hops).foldl addNeighbor
      (hops.foldl (fun adjacency hop => adjacency.set hop.id []) Dict.empty) := by
    simp only [buildAdjacency, hopEdges, List.foldl_flatMap, List.foldl_map]
    rfl
  rw [hfold, get?_foldl_addNeighbor, get?_foldl_set_id (fun _ => []) hnodup, Option.map_map]
  rfl

theorem buildAdjacency_get? {u : String} (hu : u ∈ hops.map Hop.id) :
    (buildAdjacency hops).get? u = some (Kahn.successorsOf (hopEdges hops) u) := by
  rw [get?_buildAdjacency hnodup]
  cases hfind : hops.find? fun hop => hop.id = u with
  | none => exact absurd hu (find?_id_eq_none.1 hfind)
  | some hop => simp

variable (hdeps : ∀ hop ∈ hops, ∀ dep ∈ hop.dependsOn, dep ∈ hops.map Hop.id)
include hdeps

theorem buildInDegree_get? (v : String) :
    (buildInDegree hops).get? v =
      if v ∈ hops.map Hop.id then some (Kahn.openEdges (hopEdges hops) [] v : Int) else none := by
  have hinit := get?_foldl_set_id (fun _ => (0 : Int)) hnodup
  have hfold : buildInDegree hops = (hopEdges hops).foldl addInDegree
      (hops.foldl (fun inDegree hop => inDegree.set hop.id 0) Dict.empty) := by
    simp only [buildInDegree, hopEdges, List.foldl_flatMap, List.foldl_map]
    refine List.foldl_ext _ _ _ fun inDegree hop hhop => ?_
    refine List.foldl_ext _ _ _ fun inDegree dep hdep => ?_
    rw [if_pos (hdeps hop hhop dep hdep)]
    rfl
  have htargets : ∀ edge ∈ hopEdges hops,
      ((hops.foldl (fun inDegree hop => inDegree.set hop.id (0 : Int)) Dict.empty).get?
        edge.2).isSome := by
    intro edge hedge
    obtain ⟨hop, hhop, -, htarget⟩ := mem_hopEdges.1 hedge
    rw [hinit, Option.isSome_map, htarget, List.find?_isSome]
    exact ⟨hop, hhop, by simp⟩
  rw [hfold, get?_foldl_addInDegree _ _ htargets, hinit]
  split
  · rename_i hv
    cases hfind : hops.find? fun hop => hop.id = v with
    | none => exact absurd hv (find?_id_eq_none.1 hfind)
    | some hop => simp
  · rename_i hv
    rw [find?_id_eq_none.2 hv]
    rfl

theorem kahn_progress :
    Kahn.Progress (hops.map Hop.id) (hopEdges hops) [] []
      { queue := ((buildInDegree hops).entries.filter fun entry => entry.2 = 0).map Prod.fst
        inDegree := buildInDegree hops
        processed := 0 } := by
  have hget := buildInDegree_get? hnodup hdeps
  have hqueue : ∀ v, v ∈ ((buildInDegree hops).entries.filter fun entry => entry.2 = 0).map
      Prod.fst ↔ (buildInDegree hops).get? v = some 0 := by
    intro v
    rw [Dict.get?_eq_some_iff]
    simp only [List.mem_map, List.mem_filter, decide_eq_true_eq, Prod.exists,
      exists_and_right, exists_eq_right]
  have hzero : ∀ v, (buildInDegree hops).get? v = some 0 ↔
      v ∈ hops.map Hop.id ∧ Kahn.openEdges (hopEdges hops) [] v = 0 := by
    intro v
    rw [hget]
    split <;> simp_all
  refine ⟨?_, ?_, ?_, ?_, ?_, rfl⟩
  · exact (buildInDegree hops).nodup.sublist (List.filter_sublist.map Prod.fst)
  · intro v hv
    exact ((hzero v).1 ((hqueue v).1 hv)).1
  · intro v hv
    simp [hget, hv]
  · intro v hv
    rw [List.nil_append, hqueue, hzero]
    simpa using fun _ => List.mem_map.1 hv
  · intro before v after hsplit edge hedge htarget
    have hv := ((hzero v).1 ((hqueue v).1 (by simp_all))).2
    rw [Kahn.openEdges, List.countP_eq_zero] at hv
    exact absurd (by simp [htarget]) (hv edge hedge)

theorem exists_rank_of_cycleErrors (hnone : cycleErrors hops = []) :
    ∃ rank : String → Nat, ∀ hop ∈ hops, ∀ dep ∈ hop.dependsOn, rank dep < rank hop.id := by
  have hprocessed : (kahn hops).processed = (hops.map Hop.id).length := by
    by_contra hne
    rw [List.length_map] at hne
    simp [cycleErrors, hne] at hnone
  obtain ⟨rank, hrank⟩ := Kahn.exists_rank_of_processed
    (fun id => ((buildAdjacency hops).get? id).getD [])
    (fun u hu => by rw [buildAdjacency_get? hnodup hu, Option.getD_some])
    (fun edge hedge => by
      obtain ⟨hop, hhop, -, htarget⟩ := mem_hopEdges.1 hedge
      exact htarget ▸ List.mem_map_of_mem hhop)
    hops.length (kahn_progress hnodup hdeps) hprocessed
  exact ⟨rank, fun hop hhop dep hdep =>
    hrank (dep, hop.id) (mem_hopEdges.2 ⟨hop, hhop, hdep, rfl⟩)⟩

end Tables

theorem WellFormed.of_validateDAG (haccepted : validateDAG definition = []) :
    WellFormed definition := by
  simp only [validateDAG, List.append_eq_nil_iff, List.flatMap_eq_nil_iff] at haccepted
  obtain ⟨⟨⟨⟨⟨⟨⟨⟨hids, hdangling⟩, hroot⟩, hcycle⟩, -⟩, -⟩, -⟩, -⟩, -⟩ := haccepted
  have hnodup := (duplicateErrors_eq_nil hids).2
  have hdeps : ∀ hop ∈ definition.hops, ∀ dep ∈ hop.dependsOn,
      dep ∈ definition.hops.map Hop.id := fun hop hhop =>
    danglingErrors_eq_nil (hdangling hop hhop)
  exact ⟨hnodup, hdeps, by simpa using hroot, exists_rank_of_cycleErrors hnodup hdeps hcycle⟩

theorem DistinctIds.findHop (hids : DistinctIds definition) (hhop : hop ∈ definition.hops) :
    definition.findHop hop.id = some hop := by
  have hunique := List.inj_on_of_nodup_map hids
  cases hfind : definition.findHop hop.id with
  | none =>
      exact absurd (List.mem_map_of_mem hhop) (find?_id_eq_none.1 hfind)
  | some other =>
      have hid : other.id = hop.id := by simpa using List.find?_some hfind
      rw [hunique (List.mem_of_find?_eq_some hfind) hhop hid]

theorem WellFormed.findHop (hwf : WellFormed definition) (hhop : hop ∈ definition.hops) :
    definition.findHop hop.id = some hop :=
  DistinctIds.findHop hwf.ids_nodup hhop

theorem mem_of_findHop {id : String} (hfind : definition.findHop id = some hop) :
    hop ∈ definition.hops ∧ hop.id = id :=
  ⟨List.mem_of_find?_eq_some hfind, by simpa using List.find?_some hfind⟩

theorem DistinctIds.eq_of_id_eq (hids : DistinctIds definition) (hhop : hop ∈ definition.hops)
    (hother : other ∈ definition.hops) (hid : hop.id = other.id) : hop = other :=
  List.inj_on_of_nodup_map hids hhop hother hid

theorem WellFormed.eq_of_id_eq (hwf : WellFormed definition) (hhop : hop ∈ definition.hops)
    (hother : other ∈ definition.hops) (hid : hop.id = other.id) : hop = other :=
  DistinctIds.eq_of_id_eq hwf.ids_nodup hhop hother hid

theorem WellFormed.exists_hop_of_dep (hwf : WellFormed definition) (hhop : hop ∈ definition.hops)
    {dep : String} (hdep : dep ∈ hop.dependsOn) : ∃ pred ∈ definition.hops, pred.id = dep := by
  simpa using hwf.deps_exist hop hhop dep hdep

/-- Induction along the dependencies: a hop may assume the statement for its predecessors. -/
theorem WellFormed.induction {definition : WorkflowDefinition} (hwf : WellFormed definition)
    {motive : Hop → Prop}
    (hstep : ∀ hop ∈ definition.hops,
      (∀ pred ∈ definition.hops, pred.id ∈ hop.dependsOn → motive pred) → motive hop) :
    ∀ hop ∈ definition.hops, motive hop := by
  obtain ⟨rank, hrank⟩ := hwf.ranked
  intro hop
  induction hbound : rank hop.id using Nat.strong_induction_on generalizing hop with
  | _ bound ih =>
      intro hhop
      refine hstep hop hhop fun pred hpred hdep => ?_
      exact ih (rank pred.id) (hbound ▸ hrank hop hhop pred.id hdep) pred rfl hpred

end Aof
