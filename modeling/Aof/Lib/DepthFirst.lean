import Mathlib.Data.Finset.Card
import Mathlib.Logic.Relation

/-!
# Depth-first search for a goal

The search marks the elements it visits and tries the successors of an element in order.  An answer
that the goal was not found is right on every graph, cyclic or not, because the elements marked on
the way are closed under the successors once the search has returned from them.
-/

namespace DepthFirst

variable {α : Type} [DecidableEq α]

def each (visit : α → List α → Option (Bool × List α)) :
    List α → List α → Option (Bool × List α)
  | [], visited => some (false, visited)
  | a :: rest, visited =>
      match visit a visited with
      | none => none
      | some (true, visited) => some (true, visited)
      | some (false, visited) => each visit rest visited

/-- Whether the goal was found, and the visited elements; `none` if the depth did not suffice. -/
def search (next : α → List α) (goal : α) : Nat → α → List α → Option (Bool × List α)
  | 0, _, _ => none
  | depth + 1, a, visited =>
      if a = goal then some (true, visited)
      else if a ∈ visited then some (false, visited)
      else each (search next goal depth) (next a) (a :: visited)

/-- What is visited after a search from all the starts that did not find the goal. -/
structure Explores (next : α → List α) (goal : α) (visited after starts : List α) : Prop where
  kept : visited ⊆ after
  reached : starts ⊆ after
  fresh : ∀ a ∈ after, a ∉ visited → a ≠ goal ∧ next a ⊆ after

variable {next : α → List α} {goal a : α} {visited after starts : List α} {depth : Nat}

namespace Explores

omit [DecidableEq α] in
theorem nil : Explores next goal visited visited [] :=
  ⟨List.Subset.refl _, List.nil_subset _, fun _ hmem hfresh => absurd hmem hfresh⟩

omit [DecidableEq α] in
theorem seen (hmem : a ∈ visited) : Explores next goal visited visited [a] :=
  ⟨List.Subset.refl _, List.cons_subset.mpr ⟨hmem, List.nil_subset _⟩,
    fun _ hmem hfresh => absurd hmem hfresh⟩

theorem cons {between : List α} (hfirst : Explores next goal visited between [a])
    (hrest : Explores next goal between after starts) :
    Explores next goal visited after (a :: starts) where
  kept := List.Subset.trans hfirst.kept hrest.kept
  reached := by
    apply List.cons_subset.mpr
    exact ⟨hrest.kept (hfirst.reached List.mem_cons_self), hrest.reached⟩
  fresh := by
    intro b hafter hvisited
    by_cases hbetween : b ∈ between
    · have hb := hfirst.fresh b hbetween hvisited
      exact ⟨hb.1, List.Subset.trans hb.2 hrest.kept⟩
    · exact hrest.fresh b hafter hbetween

theorem visit (hne : a ≠ goal) (hnext : Explores next goal (a :: visited) after (next a)) :
    Explores next goal visited after [a] where
  kept := List.Subset.trans (List.subset_cons_self a visited) hnext.kept
  reached := List.cons_subset.mpr ⟨hnext.kept List.mem_cons_self, List.nil_subset _⟩
  fresh := by
    intro b hafter hvisited
    by_cases hb : b = a
    · subst hb
      exact ⟨hne, hnext.reached⟩
    · apply hnext.fresh b hafter
      exact List.not_mem_cons_of_ne_of_not_mem hb hvisited

omit [DecidableEq α] in
theorem not_reachable (hexplores : Explores next goal [] after starts) (ha : a ∈ starts) :
    ¬ Relation.ReflTransGen (fun b c => c ∈ next b) a goal := by
  intro hpath
  have hclosed : ∀ {b}, Relation.ReflTransGen (fun b c => c ∈ next b) a b → b ∈ after := by
    intro b hb
    induction hb with
    | refl => exact hexplores.reached ha
    | tail _ hedge ih => exact (hexplores.fresh _ ih List.not_mem_nil).2 hedge
  exact (hexplores.fresh goal (hclosed hpath) List.not_mem_nil).1 rfl

end Explores

variable {visit : α → List α → Option (Bool × List α)}

theorem each_false
    (hvisit : ∀ a visited after, visit a visited = some (false, after) → Explores next goal
      visited after [a]) (heach : each visit starts visited = some (false, after)) :
    Explores next goal visited after starts := by
  induction starts generalizing visited with
  | nil =>
      obtain rfl : visited = after := by simpa [each] using heach
      exact Explores.nil
  | cons a rest ih =>
      unfold each at heach
      split at heach
      · cases heach
      · cases heach
      · rename_i between hfirst
        exact (hvisit _ _ _ hfirst).cons (ih heach)

theorem search_false (hsearch : search next goal depth a visited = some (false, after)) :
    Explores next goal visited after [a] := by
  induction depth generalizing a visited after with
  | zero => cases hsearch
  | succ depth ih =>
      unfold search at hsearch
      split at hsearch
      · cases hsearch
      · rename_i hne
        split at hsearch
        · rename_i hmem
          obtain rfl : visited = after := by simpa using hsearch
          exact Explores.seen hmem
        · exact Explores.visit hne (each_false (fun _ _ _ => ih) hsearch)

omit [DecidableEq α] in
theorem each_true {P : α → Prop}
    (hvisit : ∀ a visited after, visit a visited = some (true, after) → P a)
    (heach : each visit starts visited = some (true, after)) : ∃ a ∈ starts, P a := by
  induction starts generalizing visited with
  | nil => cases heach
  | cons a rest ih =>
      unfold each at heach
      split at heach
      · cases heach
      · rename_i between hfirst
        exact ⟨a, List.mem_cons_self, hvisit _ _ _ hfirst⟩
      · obtain ⟨b, hb, hP⟩ := ih heach
        exact ⟨b, List.mem_cons_of_mem a hb, hP⟩

theorem search_true (hsearch : search next goal depth a visited = some (true, after)) :
    Relation.ReflTransGen (fun b c => c ∈ next b) a goal := by
  induction depth generalizing a visited after with
  | zero => cases hsearch
  | succ depth ih =>
      unfold search at hsearch
      split at hsearch
      · rename_i heq
        rw [heq]
      · split at hsearch
        · cases hsearch
        · obtain ⟨b, hb, hpath⟩ := each_true (fun _ _ _ hfirst => ih hfirst) hsearch
          exact .head hb hpath

variable {s : Finset α}

def unvisited (s : Finset α) (visited : List α) : Nat := (s.filter (· ∉ visited)).card

theorem unvisited_le (hsubset : visited ⊆ after) : unvisited s after ≤ unvisited s visited := by
  apply Finset.card_le_card
  intro a ha
  rw [Finset.mem_filter] at ha ⊢
  exact ⟨ha.1, fun hmem => ha.2 (hsubset hmem)⟩

theorem unvisited_lt (ha : a ∈ s) (hfresh : a ∉ visited) :
    unvisited s (a :: visited) < unvisited s visited := by
  apply Finset.card_lt_card
  refine (Finset.ssubset_iff_of_subset ?_).mpr ⟨a, ?_, ?_⟩
  · intro b hb
    rw [Finset.mem_filter] at hb ⊢
    exact ⟨hb.1, fun hmem => hb.2 (List.mem_cons_of_mem a hmem)⟩
  · exact Finset.mem_filter.mpr ⟨ha, hfresh⟩
  · intro hmem
    exact (Finset.mem_filter.mp hmem).2 List.mem_cons_self

theorem each_returns {bound : Nat}
    (hvisit : ∀ a visited, unvisited s visited < bound → (visit a visited).isSome)
    (hkept : ∀ a visited after, visit a visited = some (false, after) → visited ⊆ after)
    (hbound : unvisited s visited < bound) : (each visit starts visited).isSome := by
  induction starts generalizing visited with
  | nil => rfl
  | cons a rest ih =>
      unfold each
      split
      · rename_i hnone
        have hfirst := hvisit a visited hbound
        rw [hnone] at hfirst
        exact hfirst
      · rfl
      · rename_i between hfirst
        exact ih (lt_of_le_of_lt (unvisited_le (hkept _ _ _ hfirst)) hbound)

theorem search_returns (hs : ∀ a, a ∉ s → next a = []) (hdepth : unvisited s visited < depth) :
    (search next goal depth a visited).isSome := by
  induction depth generalizing a visited with
  | zero => omega
  | succ depth ih =>
      unfold search
      split
      · rfl
      · split
        · rfl
        · rename_i hfresh
          by_cases ha : a ∈ s
          · have hlt : unvisited s (a :: visited) < depth := by
              have := unvisited_lt ha hfresh
              omega
            exact each_returns (fun _ _ => ih) (fun _ _ _ hfirst => (search_false hfirst).kept) hlt
          · rw [hs a ha]
            rfl

/-- From scratch the search finds the goal if and only if there is a path to it. -/
theorem search_exact (hs : ∀ a, a ∉ s → next a = []) (goal a : α) :
    ∃ found, (∀ depth, s.card < depth → (search next goal depth a []).map Prod.fst = some found) ∧
      (found = true ↔ Relation.ReflTransGen (fun b c => c ∈ next b) a goal) := by
  classical
  refine ⟨decide (Relation.ReflTransGen (fun b c => c ∈ next b) a goal), ?_, decide_eq_true_iff⟩
  intro depth hdepth
  have hreturns : (search next goal depth a []).isSome := by
    apply search_returns hs
    exact lt_of_le_of_lt (Finset.card_filter_le _ _) hdepth
  obtain ⟨⟨found, after⟩, hsearch⟩ := Option.isSome_iff_exists.mp hreturns
  rw [hsearch, Option.map_some]
  congr 1
  cases found with
  | true => exact (decide_eq_true (search_true hsearch)).symm
  | false =>
      have hnot := (search_false hsearch).not_reachable List.mem_cons_self
      exact (decide_eq_false hnot).symm

end DepthFirst
