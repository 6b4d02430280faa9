import Aof.Lib.Dict
import Mathlib.Data.List.Perm.Subperm
import Mathlib.Data.List.Basic
import Mathlib.Tactic.Push

/-!
# Kahn's algorithm

The queue-driven topological sort over a successor function and a table of in-degrees.  If it
processes every vertex, the order in which the vertices were dequeued ranks every edge upwards.
-/

universe u

namespace Kahn

variable {α : Type u} [DecidableEq α]

structure State (α : Type u) where
  queue : List α
  inDegree : Dict α Int
  processed : Nat

/-- One edge leaves the graph; its target is enqueued once no edge into it is left. -/
def visit (st : State α) (neighbor : α) : State α :=
  let newDegree := (st.inDegree.get? neighbor).getD 1 - 1
  { st with
    inDegree := st.inDegree.set neighbor newDegree
    queue := if newDegree = 0 then st.queue ++ [neighbor] else st.queue }

def drain (successors : α → List α) : Nat → State α → State α
  | 0, st => st
  | fuel + 1, st =>
      match st.queue with
      | [] => st
      | current :: rest =>
          drain successors fuel
            ((successors current).foldl visit
              { st with queue := rest, processed := st.processed + 1 })

def openEdges (edges : List (α × α)) (done : List α) (v : α) : Nat :=
  edges.countP fun e => e.2 = v ∧ e.1 ∉ done

def successorsOf (edges : List (α × α)) (u : α) : List α :=
  (edges.filter fun e => e.1 = u).map Prod.snd

def Ordered (edges : List (α × α)) (order : List α) : Prop :=
  ∀ before v after, order = before ++ v :: after → ∀ e ∈ edges, e.2 = v → e.1 ∈ before

/-- What holds while the edges of `done` still have to leave along `left`, the part of the last
dequeued vertex's successors that is not visited yet. -/
structure Progress (vertices : List α) (edges : List (α × α)) (done left : List α)
    (st : State α) : Prop where
  nodup : (done ++ st.queue).Nodup
  subset : ∀ v ∈ done ++ st.queue, v ∈ vertices
  degree : ∀ v ∈ vertices,
    st.inDegree.get? v = some ((openEdges edges done v + left.count v : Nat) : Int)
  enqueued : ∀ v ∈ vertices, v ∈ done ++ st.queue ↔ openEdges edges done v + left.count v = 0
  ordered : Ordered edges (done ++ st.queue)
  processed : st.processed = done.length

variable {edges : List (α × α)} {order vertices done left : List α} {st : State α}
  {successors : α → List α}

omit [DecidableEq α] in
theorem Ordered.append_singleton {v : α} (hordered : Ordered edges order)
    (hsources : ∀ e ∈ edges, e.2 = v → e.1 ∈ order) : Ordered edges (order ++ [v]) := by
  intro before w after hsplit e he hew
  rcases List.eq_nil_or_concat after with rfl | ⟨after, last, rfl⟩
  · obtain ⟨rfl, hw⟩ := List.append_inj' hsplit rfl
    obtain rfl : v = w := by simpa using hw
    exact hsources e he hew
  · have hsplit' : order ++ [v] = (before ++ w :: after) ++ [last] := by simpa using hsplit
    obtain ⟨rfl, -⟩ := List.append_inj' hsplit' rfl
    exact hordered before w after rfl e he hew

theorem Progress.visit {neighbor : α}
    (hprogress : Progress vertices edges done (neighbor :: left) st)
    (hneighbor : neighbor ∈ vertices) : Progress vertices edges done left (visit st neighbor) := by
  have hcount : (neighbor :: left).count neighbor = left.count neighbor + 1 := by simp
  have hdegree := hprogress.degree neighbor hneighbor
  rw [hcount] at hdegree
  have hnew : (st.inDegree.get? neighbor).getD 1 - 1 =
      ((openEdges edges done neighbor + left.count neighbor : Nat) : Int) := by
    rw [hdegree, Option.getD_some]
    omega
  have hfresh : neighbor ∉ done ++ st.queue := by
    rw [hprogress.enqueued neighbor hneighbor, hcount]
    omega
  have hother : ∀ v, v ≠ neighbor → (neighbor :: left).count v = left.count v := fun v hne =>
    List.count_cons_of_ne (Ne.symm hne)
  have hdegrees : ∀ v ∈ vertices, (Kahn.visit st neighbor).inDegree.get? v =
      some ((openEdges edges done v + left.count v : Nat) : Int) := by
    intro v hv
    by_cases heq : v = neighbor
    · subst heq
      simp [Kahn.visit, hnew]
    · simp only [Kahn.visit]
      rw [Dict.get?_set_of_ne _ _ (Ne.symm heq), hprogress.degree v hv, hother v heq]
  by_cases hzero : openEdges edges done neighbor + left.count neighbor = 0
  · have hqueue : (Kahn.visit st neighbor).queue = st.queue ++ [neighbor] := by
      simp [Kahn.visit, hnew, hzero]
    refine ⟨?_, ?_, hdegrees, ?_, ?_, hprogress.processed⟩
    · rw [hqueue, ← List.append_assoc]
      exact hprogress.nodup.append (List.nodup_singleton _) (by simpa using hfresh)
    · intro v hv
      rw [hqueue, ← List.append_assoc, List.mem_append, List.mem_singleton] at hv
      rcases hv with hv | rfl
      · exact hprogress.subset v hv
      · exact hneighbor
    · intro v hv
      rw [hqueue, ← List.append_assoc, List.mem_append, List.mem_singleton]
      by_cases heq : v = neighbor
      · simp [heq, hzero]
      · rw [hprogress.enqueued v hv, hother v heq]
        simp [heq]
    · rw [hqueue, ← List.append_assoc]
      refine hprogress.ordered.append_singleton fun e he htarget => ?_
      by_contra hout
      have hpos : 0 < openEdges edges done neighbor :=
        List.countP_pos_iff.2
          ⟨e, he, by simpa [htarget] using fun h => hout (List.mem_append_left _ h)⟩
      omega
  · have hqueue : (Kahn.visit st neighbor).queue = st.queue := by
      simp only [Kahn.visit, hnew]
      rw [if_neg (by exact_mod_cast hzero)]
    refine ⟨by rw [hqueue]; exact hprogress.nodup, by rw [hqueue]; exact hprogress.subset,
      hdegrees, ?_, by rw [hqueue]; exact hprogress.ordered, hprogress.processed⟩
    intro v hv
    rw [hqueue]
    by_cases heq : v = neighbor
    · simp only [heq, hfresh, hzero]
    · rw [hprogress.enqueued v hv, hother v heq]

theorem Progress.foldl_visit (hprogress : Progress vertices edges done left st)
    (hleft : ∀ v ∈ left, v ∈ vertices) :
    Progress vertices edges done [] (left.foldl Kahn.visit st) := by
  induction left generalizing st with
  | nil => exact hprogress
  | cons neighbor left ih =>
      rw [List.foldl_cons]
      exact ih (hprogress.visit (hleft neighbor List.mem_cons_self)) fun v hv =>
        hleft v (List.mem_cons_of_mem _ hv)

theorem openEdges_append_singleton (edges : List (α × α)) {u : α} (hnew : u ∉ done) (v : α) :
    openEdges edges (done ++ [u]) v + (successorsOf edges u).count v = openEdges edges done v := by
  induction edges with
  | nil => rfl
  | cons e rest ih =>
      simp only [openEdges, successorsOf, List.countP_cons, List.filter_cons] at ih ⊢
      by_cases hsource : e.1 = u <;> by_cases htarget : e.2 = v <;>
        simp [hsource, htarget, hnew] at ih ⊢ <;> omega

theorem Progress.dequeue {current : α} {rest : List α}
    (hprogress : Progress vertices edges done [] st) (hqueue : st.queue = current :: rest) :
    Progress vertices edges (done ++ [current]) (successorsOf edges current)
      { st with queue := rest, processed := st.processed + 1 } := by
  have hlist : done ++ [current] ++ rest = done ++ st.queue := by simp [hqueue]
  have hnew : current ∉ done := by
    intro hmem
    have hnodup := hprogress.nodup
    rw [hqueue, List.nodup_append] at hnodup
    exact hnodup.2.2 _ hmem _ List.mem_cons_self rfl
  have hdegree : ∀ v, openEdges edges (done ++ [current]) v +
      (successorsOf edges current).count v = openEdges edges done v + ([] : List α).count v :=
    fun v => by rw [openEdges_append_singleton edges hnew]; simp
  refine ⟨?_, ?_, ?_, ?_, ?_, ?_⟩
  · rw [hlist]
    exact hprogress.nodup
  · rw [hlist]
    exact hprogress.subset
  · intro v hv
    rw [hdegree v]
    exact hprogress.degree v hv
  · intro v hv
    rw [hlist, hdegree v]
    exact hprogress.enqueued v hv
  · rw [hlist]
    exact hprogress.ordered
  · simp [hprogress.processed]

theorem Progress.drain (hsuccessors : ∀ u ∈ vertices, successors u = successorsOf edges u)
    (hedges : ∀ e ∈ edges, e.2 ∈ vertices) (fuel : Nat)
    (hprogress : Progress vertices edges done [] st) :
    ∃ done', Progress vertices edges done' [] (drain successors fuel st) ∧
      ((drain successors fuel st).queue = [] ∨ done'.length = done.length + fuel) := by
  induction fuel generalizing done st with
  | zero => exact ⟨done, hprogress, .inr rfl⟩
  | succ fuel ih =>
      rw [Kahn.drain]
      cases hqueue : st.queue with
      | nil => exact ⟨done, hprogress, .inl hqueue⟩
      | cons current rest =>
          have hcurrent : current ∈ vertices :=
            hprogress.subset current (by simp [hqueue])
          have htargets : ∀ v ∈ successorsOf edges current, v ∈ vertices := by
            intro v hv
            obtain ⟨e, he, rfl⟩ := List.mem_map.1 hv
            exact hedges e (List.mem_of_mem_filter he)
          simp only
          rw [hsuccessors current hcurrent]
          obtain ⟨done', hdone', hend⟩ := ih ((hprogress.dequeue hqueue).foldl_visit htargets)
          refine ⟨done', hdone', hend.imp_right fun hlength => ?_⟩
          rw [hlength, List.length_append, List.length_singleton]
          omega

theorem Progress.perm_of_length (hprogress : Progress vertices edges done [] st)
    (hlength : done.length = vertices.length) : done.Perm vertices := by
  have hnodup : done.Nodup := (List.nodup_append.1 hprogress.nodup).1
  have hsubset : done ⊆ vertices := fun v hv =>
    hprogress.subset v (List.mem_append_left _ hv)
  exact (hnodup.subperm hsubset).perm_of_length_le (le_of_eq hlength.symm)

theorem Ordered.idxOf_lt (hordered : Ordered edges order) (hnodup : order.Nodup) {e : α × α}
    (he : e ∈ edges) (htarget : e.2 ∈ order) : order.idxOf e.1 < order.idxOf e.2 := by
  obtain ⟨before, after, hsplit⟩ := List.append_of_mem htarget
  have hsource := hordered before e.2 after hsplit e he rfl
  have hfresh : e.2 ∉ before := by
    rw [hsplit, List.nodup_append] at hnodup
    exact fun hmem => hnodup.2.2 _ hmem _ List.mem_cons_self rfl
  rw [hsplit, List.idxOf_append_of_mem hsource, List.idxOf_append_of_notMem hfresh]
  have := List.idxOf_lt_length_of_mem hsource
  omega

theorem exists_rank_of_processed (successors : α → List α)
    (hsuccessors : ∀ u ∈ vertices, successors u = successorsOf edges u)
    (hedges : ∀ e ∈ edges, e.2 ∈ vertices) (fuel : Nat)
    (hprogress : Progress vertices edges [] [] st)
    (hprocessed : (drain successors fuel st).processed = vertices.length) :
    ∃ rank : α → Nat, ∀ e ∈ edges, rank e.1 < rank e.2 := by
  obtain ⟨done, hfinal, -⟩ := hprogress.drain hsuccessors hedges fuel
  have hperm : done.Perm vertices :=
    hfinal.perm_of_length (hfinal.processed.symm.trans hprocessed)
  refine ⟨(done ++ (drain successors fuel st).queue).idxOf, fun e he => ?_⟩
  exact hfinal.ordered.idxOf_lt hfinal.nodup he
    (List.mem_append_left _ (hperm.mem_iff.2 (hedges e he)))

theorem processed_of_rank (hvertices : vertices.Nodup)
    (hsuccessors : ∀ u ∈ vertices, successors u = successorsOf edges u)
    (hedges : ∀ e ∈ edges, e.1 ∈ vertices ∧ e.2 ∈ vertices) {rank : α → Nat}
    (hrank : ∀ e ∈ edges, rank e.1 < rank e.2) (hprogress : Progress vertices edges [] [] st) :
    (drain successors vertices.length st).processed = vertices.length := by
  obtain ⟨done, hfinal, hend⟩ :=
    hprogress.drain hsuccessors (fun e he => (hedges e he).2) vertices.length
  rw [hfinal.processed]
  rcases hend with hempty | hlength
  · have hall : ∀ v ∈ vertices, v ∈ done := by
      intro v
      induction hv : rank v using Nat.strong_induction_on generalizing v with
      | _ bound ih =>
          intro hmem
          have henqueued := hfinal.enqueued v hmem
          rw [hempty, List.append_nil, List.count_nil, Nat.add_zero] at henqueued
          apply henqueued.mpr
          rw [openEdges, List.countP_eq_zero]
          intro e he
          rw [decide_eq_true_eq]
          rintro ⟨rfl, hopen⟩
          exact hopen (ih (rank e.1) (hv ▸ hrank e he) e.1 rfl (hedges e he).1)
    have hsubset : done ⊆ vertices := fun v hv =>
      hfinal.subset v (List.mem_append_left _ hv)
    have hnodup : done.Nodup := (List.nodup_append.1 hfinal.nodup).1
    exact ((List.perm_ext_iff_of_nodup hnodup hvertices).mpr
      fun v => ⟨fun hv => hsubset hv, hall v⟩).length_eq
  · simpa using hlength

end Kahn
