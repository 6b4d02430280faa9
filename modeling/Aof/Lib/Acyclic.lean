import Mathlib.Data.Finset.Card
import Mathlib.Logic.Relation
import Mathlib.Data.List.Nodup

/-!
# Acyclic relations

An edge may be added to an acyclic relation if its target lies in a set that is closed under the
relation and does not contain its source: this is what a search from the target establishes.  With
finitely many sources, a relation is acyclic if and only if it can be ranked.
-/

def Acyclic {α : Type} (r : α → α → Prop) : Prop :=
  ∀ a, ¬ Relation.TransGen r a a

namespace Acyclic

variable {α : Type} {r r' : α → α → Prop} {a x y : α} {s : Set α}

def EdgesInto (r r' : α → α → Prop) (a : α) (s : Set α) : Prop :=
  ∀ x y, r' x y → r x y ∨ x = a ∧ y ∈ s

section

variable (hclosed : ∀ x y, x ∈ s → r x y → y ∈ s) (hout : a ∉ s) (hedges : EdgesInto r r' a s)
include hclosed hout hedges

theorem path_inside (hx : x ∈ s) (hpath : Relation.TransGen r' x y) :
    y ∈ s ∧ Relation.TransGen r x y := by
  have hedge : ∀ y z, y ∈ s → r' y z → r y z := by
    intro y z hy hyz
    apply (hedges y z hyz).resolve_right
    rintro ⟨rfl, -⟩
    exact hout hy
  induction hpath with
  | single hxy => exact ⟨hclosed _ _ hx (hedge _ _ hx hxy), .single (hedge _ _ hx hxy)⟩
  | tail _ hyz ih =>
      have hstep := hedge _ _ ih.1 hyz
      exact ⟨hclosed _ _ ih.1 hstep, ih.2.tail hstep⟩

theorem path_old_or_inside (hpath : Relation.TransGen r' x y) :
    Relation.TransGen r x y ∨ y ∈ s := by
  induction hpath with
  | single hxy => exact (hedges _ _ hxy).imp .single And.right
  | tail _ hyz ih =>
      rcases ih with hold | hy
      · exact (hedges _ _ hyz).imp hold.tail And.right
      · exact .inr (path_inside hclosed hout hedges hy (.single hyz)).1

end

theorem insert (hacyclic : Acyclic r) (hclosed : ∀ x y, x ∈ s → r x y → y ∈ s) (hout : a ∉ s)
    (hedges : EdgesInto r r' a s) : Acyclic r' := by
  intro c hcycle
  rcases path_old_or_inside hclosed hout hedges hcycle with hold | hc
  · exact hacyclic c hold
  · exact hacyclic c (path_inside hclosed hout hedges hc hcycle).2

theorem transGen_of_back (hedge : ∀ x y, r x y → Relation.ReflTransGen r y x → r' x y)
    (hpath : Relation.TransGen r x y) (hback : Relation.ReflTransGen r y x) :
    Relation.TransGen r' x y := by
  induction hpath with
  | single hxy => exact .single (hedge _ _ hxy hback)
  | tail hxy hyz ih =>
      exact (ih (hback.head hyz)).tail (hedge _ _ hyz (hback.trans hxy.to_reflTransGen))

theorem of_rank {rank : α → Nat} (hrank : ∀ x y, r x y → rank x < rank y) : Acyclic r := by
  have hpath : ∀ x y, Relation.TransGen r x y → rank x < rank y := by
    intro x y hxy
    induction hxy with
    | single hedge => exact hrank _ _ hedge
    | tail _ hedge ih => exact ih.trans (hrank _ _ hedge)
  intro x hcycle
  exact lt_irrefl _ (hpath x x hcycle)

theorem exists_rank {sources : Finset α} (hsources : ∀ x y, r x y → x ∈ sources)
    (hacyclic : Acyclic r) : ∃ rank : α → Nat, ∀ x y, r x y → rank x < rank y := by
  classical
  refine ⟨fun y => (sources.filter fun x => Relation.TransGen r x y).card, ?_⟩
  intro x y hedge
  apply Finset.card_lt_card
  refine (Finset.ssubset_iff_of_subset ?_).mpr ⟨x, ?_, ?_⟩
  · intro z hz
    rw [Finset.mem_filter] at hz ⊢
    exact ⟨hz.1, hz.2.tail hedge⟩
  · exact Finset.mem_filter.mpr ⟨hsources x y hedge, .single hedge⟩
  · intro hself
    exact hacyclic x (Finset.mem_filter.mp hself).2

end Acyclic

/-!
## Walks along pointers

Every element points to one other at most.  A walk follows the pointers until one of them is missing
or leads to an element that the walk has seen.
-/

namespace PointerWalk

variable {α : Type} (next : α → Option α)

def Points (a b : α) : Prop := next a = some b

def Ends (a : α) : Prop := Acc (fun b a => Points next a b) a

/-- Whether the walk sees an element again; none, if the fuel does not suffice. -/
def revisits [DecidableEq α] : Nat → List α → Option α → Option Bool
  | _, _, none => some false
  | 0, _, some _ => none
  | fuel + 1, visited, some current =>
      if current ∈ visited then some true
      else revisits fuel (current :: visited) (next current)

variable {next} {a b c : α}

theorem Ends.not_cycle (hends : Ends next a) : ¬Relation.TransGen (Points next) a a := by
  have hbelow : ∀ x, Acc (Relation.TransGen fun b a => Points next a b) x →
      ¬Relation.TransGen (fun b a => Points next a b) x x := by
    intro x hacc
    induction hacc with
    | intro x _ ih => exact fun hcycle => ih x hcycle hcycle
  exact fun hcycle => hbelow a (Acc.transGen hends) (Relation.transGen_swap.2 hcycle)

theorem Ends.of_points (hpoints : Points next a b) (hends : Ends next b) : Ends next a := by
  apply Acc.intro
  intro c hc
  obtain rfl : b = c := Option.some.inj (hpoints.symm.trans hc)
  exact hends

theorem Ends.of_path (hpath : Relation.ReflTransGen (Points next) a b) (hends : Ends next b) :
    Ends next a := by
  induction hpath with
  | refl => exact hends
  | tail _ hlast ih => exact ih (.of_points hlast hends)

theorem Ends.of_none (hnone : next a = none) : Ends next a := by
  apply Acc.intro
  intro b hb
  exact absurd (hnone.symm.trans hb) (Option.some_ne_none b).symm

variable [DecidableEq α] {fuel : Nat} {visited : List α} {current : Option α}

theorem ends_of_revisits (hwalk : revisits next fuel visited current = some false) :
    ∀ a ∈ current, Ends next a := by
  induction fuel generalizing visited current with
  | zero =>
      cases current with
      | none => exact fun a ha => absurd ha (Option.not_mem_none a)
      | some a => cases hwalk
  | succ fuel ih =>
      cases current with
      | none => exact fun a ha => absurd ha (Option.not_mem_none a)
      | some current =>
          intro a ha
          obtain rfl := Option.some.inj ha
          rw [revisits] at hwalk
          split at hwalk
          · cases hwalk
          · cases hnext : next current with
            | none => exact .of_none hnext
            | some b => exact .of_points hnext (ih hwalk b hnext)

/-- The elements seen point to one another in turn, and the newest one to the current element. -/
def Trail (next : α → Option α) (visited : List α) (current : Option α) : Prop :=
  ∀ a ∈ visited, ∀ b ∈ current, Relation.TransGen (Points next) a b

omit [DecidableEq α] in
theorem Trail.step {current : α} (htrail : Trail next visited (some current)) :
    Trail next (current :: visited) (next current) := by
  intro a ha b hb
  have hpoints : Points next current b := hb
  rcases List.mem_cons.1 ha with rfl | hold
  · exact .single hpoints
  · exact (htrail a hold current rfl).tail hpoints

theorem cycle_of_revisits (htrail : Trail next visited current)
    (hwalk : revisits next fuel visited current = some true) :
    ∃ a, Relation.TransGen (Points next) a a := by
  induction fuel generalizing visited current with
  | zero => cases current <;> cases hwalk
  | succ fuel ih =>
      cases current with
      | none => cases hwalk
      | some current =>
          rw [revisits] at hwalk
          split at hwalk
          · rename_i hseen
            exact ⟨current, htrail current hseen current rfl⟩
          · exact ih htrail.step hwalk

theorem isSome_revisits {elements : List α} (hnext : ∀ a b, next a = some b → b ∈ elements)
    (hcurrent : ∀ a ∈ current, a ∈ elements) (hvisited : visited ⊆ elements)
    (hnodup : visited.Nodup) (hfuel : elements.length < fuel + visited.length) :
    (revisits next fuel visited current).isSome := by
  induction fuel generalizing visited current with
  | zero =>
      have hle := hnodup.length_le_of_subset hvisited
      omega
  | succ fuel ih =>
      cases current with
      | none => rfl
      | some current =>
          rw [revisits]
          split
          · rfl
          · rename_i hfresh
            apply ih (fun b hb => hnext current b hb)
            · exact List.cons_subset.2 ⟨hcurrent current rfl, hvisited⟩
            · exact List.nodup_cons.2 ⟨hfresh, hnodup⟩
            · rw [List.length_cons]
              omega

/-- The walk from an element, with fuel for all the elements there are. -/
theorem revisits_cases {elements : List α} (hnext : ∀ a b, next a = some b → b ∈ elements)
    (ha : a ∈ elements) (hfuel : elements.length < fuel) :
    revisits next fuel [] (some a) = some true ∧ (∃ c, Relation.TransGen (Points next) c c) ∨
      revisits next fuel [] (some a) = some false ∧ Ends next a := by
  have hsome : (revisits next fuel [] (some a)).isSome := by
    apply isSome_revisits hnext ?_ (List.nil_subset _) List.nodup_nil hfuel
    intro b hb
    exact Option.some.inj hb ▸ ha
  obtain ⟨answer, hanswer⟩ := Option.isSome_iff_exists.1 hsome
  cases answer with
  | true => exact .inl ⟨hanswer, cycle_of_revisits (fun _ h => absurd h List.not_mem_nil) hanswer⟩
  | false => exact .inr ⟨hanswer, ends_of_revisits hanswer a rfl⟩

end PointerWalk
