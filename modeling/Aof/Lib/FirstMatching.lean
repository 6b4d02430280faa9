import Mathlib.Data.List.Basic
import Mathlib.Data.List.Infix

/-!
# The first of the matching items

A limit that is applied in front of a filter.  What the filter leaves is the beginning of the
matching items exactly if no other item takes a place in the limit, or nothing behind it matches.
-/

namespace FirstMatching

section

variable {Item : Type*} (matching : Item → Bool) (limit : Nat) (items : List Item)

def Uncrowded : Prop :=
  (∀ item ∈ items.take limit, matching item = true) ∨
    ∀ item ∈ items.drop limit, matching item = false

/-- The first items of a collection in an order: something is left out only if the limit is
reached. -/
def IsFirst (order : Item → Item → Prop) (all chosen : List Item) : Prop :=
  ∃ omitted, (chosen ++ omitted).Perm all ∧ (chosen ++ omitted).Pairwise order ∧
    chosen.length ≤ limit ∧ (omitted ≠ [] → chosen.length = limit)

theorem filter_eq_append : items.filter matching =
      (items.take limit).filter matching ++ (items.drop limit).filter matching := by
  rw [← List.filter_append, List.take_append_drop]

variable {matching limit items}

theorem uncrowded_of_length_le (hlength : items.length ≤ limit) :
    Uncrowded matching limit items := by
  right
  rw [List.drop_eq_nil_of_le hlength]
  intro item hitem
  cases hitem

theorem length_filter_take_le : ((items.take limit).filter matching).length ≤ limit :=
  (List.length_filter_le _ _).trans (List.length_take_le _ _)

theorem all_of_length_filter_take (hlength : ((items.take limit).filter matching).length = limit) :
    ∀ item ∈ items.take limit, matching item = true := by
  have htake : (items.take limit).length ≤ limit := List.length_take_le _ _
  have hle := List.length_filter_le matching (items.take limit)
  have hall : ((items.take limit).filter matching).length = (items.take limit).length := by omega
  exact List.length_filter_eq_length_iff.mp hall

theorem length_take_of_drop_ne_nil (hdrop : (items.drop limit).filter matching ≠ []) :
    (items.take limit).length = limit := by
  rw [List.length_take, Nat.min_eq_left]
  by_contra hlong
  apply hdrop
  rw [List.drop_eq_nil_of_le (by omega)]
  rfl

theorem filter_drop_eq_nil_iff : (items.drop limit).filter matching = [] ↔
      ∀ item ∈ items.drop limit, matching item = false := by
  simp [List.filter_eq_nil_iff]

theorem filter_take_eq_iff :
    (items.take limit).filter matching = (items.filter matching).take limit ↔
      Uncrowded matching limit items := by
  constructor
  · intro heq
    by_cases hdrop : (items.drop limit).filter matching = []
    · exact .inr (filter_drop_eq_nil_iff.mp hdrop)
    · left
      apply all_of_length_filter_take
      have hpos := List.length_pos_of_ne_nil hdrop
      have htotal := congrArg List.length (filter_eq_append matching limit items)
      have hlength := congrArg List.length heq
      rw [List.length_append] at htotal
      rw [List.length_take] at hlength
      omega
  · rintro (hall | hnone)
    · by_cases hdrop : (items.drop limit).filter matching = []
      · rw [filter_eq_append matching limit items, hdrop, List.append_nil,
          List.take_of_length_le length_filter_take_le]
      · have htake := List.filter_eq_self.mpr hall
        rw [filter_eq_append matching limit items, htake,
          List.take_left' (length_take_of_drop_ne_nil hdrop)]
    · rw [filter_eq_append matching limit items, filter_drop_eq_nil_iff.mpr hnone,
        List.append_nil, List.take_of_length_le length_filter_take_le]

theorem isFirst_filter_take_iff {order : Item → Item → Prop} {all : List Item}
    (hperm : items.Perm all) (hsorted : items.Pairwise order) :
    IsFirst limit order (all.filter matching) ((items.take limit).filter matching) ↔
      Uncrowded matching limit items := by
  have hfilter := hperm.filter matching
  constructor
  · rintro ⟨omitted, homitted, -, -, hreached⟩
    by_cases hnil : omitted = []
    · right
      apply filter_drop_eq_nil_iff.mp
      have hlength := (homitted.trans hfilter.symm).length_eq
      rw [hnil, List.append_nil, filter_eq_append matching limit items,
        List.length_append] at hlength
      exact List.eq_nil_of_length_eq_zero (by omega)
    · exact .inl (all_of_length_filter_take (hreached hnil))
  · intro huncrowded
    refine ⟨(items.drop limit).filter matching, ?_, ?_, length_filter_take_le, ?_⟩
    · rw [← filter_eq_append]
      exact hfilter
    · rw [← filter_eq_append]
      exact hsorted.filter _
    · intro hdrop
      rcases huncrowded with hall | hnone
      · rw [List.filter_eq_self.mpr hall, length_take_of_drop_ne_nil hdrop]
      · exact absurd (filter_drop_eq_nil_iff.mpr hnone) hdrop

end

end FirstMatching
