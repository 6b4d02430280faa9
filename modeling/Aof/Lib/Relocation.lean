import Mathlib.Data.List.Basic
import Mathlib.Data.List.Nodup

/-!
# Moves one after the other

Each place may name another one, to which its content is moved when its turn comes; what lay there
is lost.  A content that is moved early may be moved again, from the place where it then lies.
-/

namespace Relocation

variable {Place Content : Type} [DecidableEq Place]
variable {target : Place → Option Place}

def moveOne (target : Place → Option Place) (contents : Place → Option Content) (place : Place) :
    Place → Option Content :=
  match target place with
  | some next =>
      Function.update (Function.update contents place none) next (contents place)
  | none => contents

def moveAll (target : Place → Option Place) (places : List Place)
    (contents : Place → Option Content) : Place → Option Content :=
  places.foldl (moveOne target) contents

/-- `Settles target places x y`: through the turns of the places, what lies in `x` comes to lie in
`y`, and nothing is moved onto it on the way. -/
inductive Settles (target : Place → Option Place) : List Place → Place → Place → Prop
  | nil (x : Place) : Settles target [] x x
  | moved {x next y : Place} {places : List Place} (htarget : target x = some next)
      (hrest : Settles target places next y) : Settles target (x :: places) x y
  | left {place x y : Place} {places : List Place} (hx : place = x → target place = none)
      (honto : target place ≠ some x) (hrest : Settles target places x y) :
      Settles target (place :: places) x y

def Full (target : Place → Option Place) (places : List Place)
    (contents : Place → Option Content) : Prop :=
  ∀ place ∈ places, (target place).isSome → (contents place).isSome

section Moves

variable {contents : Place → Option Content} {place next : Place} {places : List Place}

theorem moveOne_of_none (htarget : target place = none) :
    moveOne target contents place = contents := by
  rw [moveOne, htarget]

theorem moveOne_of_some (htarget : target place = some next) (y : Place) :
    moveOne target contents place y =
      if y = next then contents place else if y = place then none else contents y := by
  simp only [moveOne, htarget, Function.update_apply]

theorem full_moveOne (hfull : Full target (place :: places) contents) (hnew : place ∉ places) :
    Full target places (moveOne target contents place) := by
  intro other hother hmoved
  have hne : other ≠ place := fun h => hnew (h ▸ hother)
  have hold := hfull other (List.mem_cons_of_mem _ hother) hmoved
  cases htarget : target place with
  | none =>
      rw [moveOne_of_none htarget]
      exact hold
  | some next =>
      rw [moveOne_of_some htarget]
      rw [if_neg hne]
      split
      · exact hfull place List.mem_cons_self (by rw [htarget]; rfl)
      · exact hold

/-- What lies in a place after all moves has settled there. -/
theorem moveAll_eq_some_iff (hnodup : places.Nodup) (hfull : Full target places contents)
    (y : Place) (content : Content) : moveAll target places contents y = some content ↔
      ∃ x, contents x = some content ∧ Settles target places x y := by
  induction places generalizing contents with
  | nil =>
      constructor
      · exact fun h => ⟨y, h, .nil y⟩
      · rintro ⟨x, hx, hsettles⟩
        cases hsettles
        exact hx
  | cons place places ih =>
      obtain ⟨hnew, hnodup⟩ := List.nodup_cons.mp hnodup
      show moveAll target places (moveOne target contents place) y = some content ↔ _
      rw [ih hnodup (full_moveOne hfull hnew)]
      cases htarget : target place with
      | none =>
          rw [moveOne_of_none htarget]
          constructor
          · rintro ⟨x, hx, hsettles⟩
            exact ⟨x, hx, .left (fun _ => htarget) (by rw [htarget]; nofun) hsettles⟩
          · rintro ⟨x, hx, hsettles⟩
            cases hsettles with
            | moved hmoved =>
                rw [htarget] at hmoved
                cases hmoved
            | left _ _ hrest => exact ⟨x, hx, hrest⟩
      | some next =>
          constructor
          · rintro ⟨x, hx, hsettles⟩
            rw [moveOne_of_some htarget] at hx
            split at hx
            · rename_i hnext
              exact ⟨place, hx, .moved (hnext ▸ htarget) hsettles⟩
            · rename_i hnext
              split at hx
              · cases hx
              · rename_i hplace
                refine ⟨x, hx, .left (fun h => absurd h.symm hplace) ?_ hsettles⟩
                rw [htarget]
                exact fun h => hnext (Option.some.inj h).symm
          · rintro ⟨x, hx, hsettles⟩
            cases hsettles with
            | moved hmoved hrest =>
                rw [htarget] at hmoved
                obtain rfl := Option.some.inj hmoved
                refine ⟨next, ?_, hrest⟩
                rw [moveOne_of_some htarget, if_pos rfl]
                exact hx
            | left hstays honto hrest =>
                refine ⟨x, ?_, hrest⟩
                have hplace : x ≠ place := by
                  rintro rfl
                  rw [hstays rfl] at htarget
                  cases htarget
                rw [moveOne_of_some htarget, if_neg, if_neg hplace]
                · exact hx
                · rintro rfl
                  exact honto htarget

omit [DecidableEq Place] in
theorem pair_sublist_cons {other y : Place} (hother : other ≠ place) :
    [other, y].Sublist (place :: places) ↔ [other, y].Sublist places := by
  rw [List.cons_sublist_cons']
  exact or_iff_left fun h => hother h.1

omit [DecidableEq Place] in
theorem pair_sublist_cons_self {y : Place} (hnew : place ∉ places) :
    [place, y].Sublist (place :: places) ↔ y ∈ places := by
  rw [List.cons_sublist_cons', List.singleton_sublist]
  constructor
  · rintro (h | h)
    · exact absurd (h.subset List.mem_cons_self) hnew
    · exact h.2
  · exact fun h => .inr ⟨rfl, h⟩

/-- A place is filled in the end: it kept its content, or another one was moved there and stayed. -/
def Filled (target : Place → Option Place) (places : List Place)
    (contents : Place → Option Content) (y : Place) : Prop :=
  ((contents y).isSome ∧ (y ∈ places → target y = none)) ∨
    ∃ place ∈ places, target place = some y ∧ ([place, y].Sublist places → target y = none)

omit [DecidableEq Place] in
theorem filled_cons_of_none (hnew : place ∉ places) (htarget : target place = none) (y : Place) :
    Filled target (place :: places) contents y ↔ Filled target places contents y := by
  have hkept : (y ∈ place :: places → target y = none) ↔ (y ∈ places → target y = none) := by
    constructor
    · exact fun h hy => h (List.mem_cons_of_mem _ hy)
    · intro h hy
      rcases List.mem_cons.mp hy with rfl | hy
      · exact htarget
      · exact h hy
  unfold Filled
  rw [hkept]
  apply or_congr_right
  constructor
  · rintro ⟨other, hother, hmoved, hstays⟩
    rcases List.mem_cons.mp hother with rfl | hother
    · rw [htarget] at hmoved
      cases hmoved
    · have hne : other ≠ place := fun h => hnew (h ▸ hother)
      exact ⟨other, hother, hmoved, fun h => hstays ((pair_sublist_cons hne).mpr h)⟩
  · rintro ⟨other, hother, hmoved, hstays⟩
    have hne : other ≠ place := fun h => hnew (h ▸ hother)
    exact ⟨other, List.mem_cons_of_mem _ hother, hmoved,
      fun h => hstays ((pair_sublist_cons hne).mp h)⟩

theorem filled_cons_of_some (hne : place ≠ next) (hnew : place ∉ places)
    (hfilled : (contents place).isSome) (htarget : target place = some next) (y : Place) :
    Filled target (place :: places) contents y ↔
      Filled target places (moveOne target contents place) y := by
  unfold Filled
  rw [moveOne_of_some htarget]
  have hothers : ∀ other ∈ places,
      ([other, y].Sublist (place :: places) ↔ [other, y].Sublist places) :=
    fun other hother => pair_sublist_cons fun h => hnew (h ▸ hother)
  by_cases hnext : y = next
  · subst hnext
    rw [if_pos rfl]
    constructor
    · rintro (⟨-, hstays⟩ | ⟨other, hother, hmoved, hstays⟩)
      · exact .inl ⟨hfilled, fun h => hstays (List.mem_cons_of_mem _ h)⟩
      · rcases List.mem_cons.mp hother with rfl | hother
        · exact .inl ⟨hfilled, fun h => hstays ((pair_sublist_cons_self hnew).mpr h)⟩
        · exact .inr ⟨other, hother, hmoved, fun h => hstays ((hothers other hother).mpr h)⟩
    · rintro (⟨-, hstays⟩ | ⟨other, hother, hmoved, hstays⟩)
      · exact .inr ⟨place, List.mem_cons_self, htarget,
          fun h => hstays ((pair_sublist_cons_self hnew).mp h)⟩
      · exact .inr ⟨other, List.mem_cons_of_mem _ hother, hmoved,
          fun h => hstays ((hothers other hother).mp h)⟩
  · have hmoves : ∀ other, target other = some y → other ≠ place := by
      rintro other hmoved rfl
      rw [htarget] at hmoved
      exact hnext (Option.some.inj hmoved).symm
    rw [if_neg hnext]
    apply or_congr
    · by_cases hplace : y = place
      · subst hplace
        simp [htarget]
      · rw [if_neg hplace]
        simp [hplace]
    · constructor
      · rintro ⟨other, hother, hmoved, hstays⟩
        have hin := (List.mem_cons.mp hother).resolve_left (hmoves other hmoved)
        exact ⟨other, hin, hmoved, fun h => hstays ((hothers other hin).mpr h)⟩
      · rintro ⟨other, hother, hmoved, hstays⟩
        exact ⟨other, List.mem_cons_of_mem _ hother, hmoved,
          fun h => hstays ((hothers other hother).mp h)⟩

theorem isSome_moveAll_iff (hne : ∀ place, target place ≠ some place) (hnodup : places.Nodup)
    (hfull : Full target places contents) (y : Place) :
    (moveAll target places contents y).isSome ↔ Filled target places contents y := by
  induction places generalizing contents with
  | nil => simp [moveAll, Filled]
  | cons place places ih =>
      obtain ⟨hnew, hnodup⟩ := List.nodup_cons.mp hnodup
      show (moveAll target places (moveOne target contents place) y).isSome ↔ _
      rw [ih hnodup (full_moveOne hfull hnew)]
      cases htarget : target place with
      | none => rw [moveOne_of_none htarget, filled_cons_of_none hnew htarget]
      | some next =>
          have hother : place ≠ next := by
            rintro rfl
            exact hne place htarget
          have hfilled := hfull place List.mem_cons_self (by rw [htarget]; rfl)
          exact (filled_cons_of_some hother hnew hfilled htarget y).symm

end Moves

end Relocation
