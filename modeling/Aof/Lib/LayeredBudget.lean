import Mathlib.Algebra.GroupWithZero.Nat
import Mathlib.Data.List.Infix

/-!
# Filling a budget in layers

The items of a layer are taken in their order, as long as they fit.  If the next one does not, a
part of it may be taken, when enough is left, and that ends the filling.  Otherwise the next layer
is tried, with what is left.
-/

structure LayeredBudget (Item : Type*) where
  size : Item → Nat
  /-- A total is within the budget. -/
  fits : Nat → Bool
  /-- So much is left behind a total that a part of an item is taken. -/
  wide : Nat → Bool
  fits_of_le : ∀ {a b : Nat}, a ≤ b → fits b = true → fits a = true
  wide_of_le : ∀ {a b : Nat}, a ≤ b → wide b = true → wide a = true

namespace LayeredBudget

variable {Item : Type*} (budget : LayeredBudget Item)

def total (items : List Item) : Nat := (items.map budget.size).sum

def fill (used : Nat) : List Item → List Item × Option Item
  | [] => ([], none)
  | item :: rest =>
      if budget.fits (used + budget.size item) then
        let (taken, stopped) := fill (used + budget.size item) rest
        (item :: taken, stopped)
      else ([], some item)

def cutsShort (used : Nat) (layer : List Item) : Bool :=
  (budget.fill used layer).2.isSome &&
    budget.wide (used + budget.total (budget.fill used layer).1)

def fillLayers (used : Nat) : List (List Item) → List Item × Option Item
  | [] => ([], none)
  | layer :: later =>
      if budget.cutsShort used layer then budget.fill used layer
      else
        let next := used + budget.total (budget.fill used layer).1
        ((budget.fill used layer).1 ++ (fillLayers next later).1, (fillLayers next later).2)

/-- A layer is cut short, too little is left for a part of its next item, and yet the first item of
a later layer fits. -/
inductive GapFilled : Nat → List (List Item) → Prop
  | here {used : Nat} {before after layer : List Item} {stopped first : Item}
      {later : List (List Item)}
      (hstopped : budget.fits (used + budget.total before + budget.size stopped) = false)
      (hwide : budget.wide (used + budget.total before) = false)
      (hlayer : layer ∈ later) (hfirst : layer.head? = some first)
      (hfits : budget.fits (used + budget.total before + budget.size first) = true) :
      GapFilled used ((before ++ stopped :: after) :: later)
  | later {used : Nat} {layer : List Item} {later : List (List Item)}
      (hlater : GapFilled (used + budget.total layer) later) : GapFilled used (layer :: later)

variable {budget} {used : Nat} {items layer : List Item} {layers : List (List Item)}

@[simp]
theorem total_nil : budget.total [] = 0 := rfl

@[simp]
theorem total_cons (item : Item) (items : List Item) :
    budget.total (item :: items) = budget.size item + budget.total items := by
  rw [total, List.map_cons, List.sum_cons, total]

@[simp]
theorem total_append (left right : List Item) :
    budget.total (left ++ right) = budget.total left + budget.total right := by
  rw [total, List.map_append, List.sum_append, total, total]

theorem fill_cases (used : Nat) (layer : List Item) : budget.fill used layer = (layer, none) ∨
      ∃ before stopped after, layer = before ++ stopped :: after ∧
        budget.fill used layer = (before, some stopped) ∧
          budget.fits (used + budget.total before + budget.size stopped) = false := by
  induction layer generalizing used with
  | nil => exact .inl rfl
  | cons item rest ih =>
      rw [fill]
      by_cases hfits : budget.fits (used + budget.size item) = true
      · rw [if_pos hfits]
        rcases ih (used + budget.size item) with hall | ⟨before, stopped, after, hrest, hfill, hnot⟩
        · exact .inl (by rw [hall])
        · refine .inr ⟨item :: before, stopped, after, by rw [hrest, List.cons_append], ?_, ?_⟩
          · rw [hfill]
          · rw [total_cons, ← Nat.add_assoc]
            exact hnot
      · rw [if_neg hfits]
        exact .inr ⟨[], item, rest, rfl, rfl, by simpa using hfits⟩

theorem fits_fill (hne : (budget.fill used layer).1 ≠ []) :
    budget.fits (used + budget.total (budget.fill used layer).1) = true := by
  induction layer generalizing used with
  | nil => exact absurd rfl hne
  | cons item rest ih =>
      rw [fill] at hne ⊢
      by_cases hfits : budget.fits (used + budget.size item) = true
      · rw [if_pos hfits, total_cons, ← Nat.add_assoc]
        by_cases hrest : (budget.fill (used + budget.size item) rest).1 = []
        · rw [hrest, total_nil, Nat.add_zero]
          exact hfits
        · exact ih hrest
      · rw [if_neg hfits] at hne
        exact absurd rfl hne

variable {stopped : Item} {later : List (List Item)} {taken : List Item}

theorem fill_append {before after : List Item}
    (hbefore : budget.fits (used + budget.total before) = true)
    (hstopped : budget.fits (used + budget.total before + budget.size stopped) = false) :
    budget.fill used (before ++ stopped :: after) = (before, some stopped) := by
  induction before generalizing used with
  | nil =>
      rw [List.nil_append, fill, if_neg]
      simpa using hstopped
  | cons item before ih =>
      rw [total_cons, ← Nat.add_assoc] at hbefore hstopped
      have hitem := budget.fits_of_le (Nat.le_add_right _ (budget.total before)) hbefore
      rw [List.cons_append, fill, if_pos hitem, ih hbefore hstopped]

theorem fill_ne_nil_iff : (budget.fill used layer).1 ≠ [] ↔
      ∃ first, layer.head? = some first ∧ budget.fits (used + budget.size first) = true := by
  cases layer with
  | nil => simp [fill]
  | cons item rest =>
      rw [fill]
      by_cases hfits : budget.fits (used + budget.size item) = true <;> simp [hfits]

theorem fillLayers_cons_cut {layer : List Item} (hcut : budget.cutsShort used layer = true) :
    budget.fillLayers used (layer :: later) = budget.fill used layer := by
  rw [fillLayers, if_pos hcut]

theorem fillLayers_cons {layer : List Item} (hcut : budget.cutsShort used layer = false) :
    budget.fillLayers used (layer :: later) = ((budget.fill used layer).1 ++
        (budget.fillLayers (used + budget.total (budget.fill used layer).1) later).1,
        (budget.fillLayers (used + budget.total (budget.fill used layer).1) later).2) := by
  rw [fillLayers, if_neg (by rw [hcut]; exact Bool.false_ne_true)]

theorem cutsShort_of_fill_none (hfill : budget.fill used layer = (taken, none)) :
    budget.cutsShort used layer = false := by
  rw [cutsShort, hfill]
  rfl

theorem cutsShort_of_fill_some (hfill : budget.fill used layer = (taken, some stopped)) :
    budget.cutsShort used layer = budget.wide (used + budget.total taken) := by
  rw [cutsShort, hfill]
  rfl

theorem cutsShort_of_not_wide (hwide : budget.wide used = false) :
    budget.cutsShort used layer = false := by
  rw [cutsShort, Bool.and_eq_false_iff]
  right
  by_contra hnot
  have hleft := budget.wide_of_le (Nat.le_add_right used _) (by simpa using hnot)
  rw [hwide] at hleft
  cases hleft

theorem fits_fillLayers (hne : (budget.fillLayers used layers).1 ≠ []) :
    budget.fits (used + budget.total (budget.fillLayers used layers).1) = true := by
  induction layers generalizing used with
  | nil => exact absurd rfl hne
  | cons layer later ih =>
      by_cases hcut : budget.cutsShort used layer = true
      · rw [fillLayers_cons_cut hcut] at hne ⊢
        exact fits_fill hne
      · rw [fillLayers_cons (Bool.eq_false_iff.2 hcut)] at hne ⊢
        rw [total_append, ← Nat.add_assoc]
        by_cases hmore : (budget.fillLayers
            (used + budget.total (budget.fill used layer).1) later).1 = []
        · rw [hmore, List.append_nil] at hne
          rw [hmore, total_nil, Nat.add_zero]
          exact fits_fill hne
        · exact ih hmore

theorem fillLayers_cut {item : Item} (hcut : (budget.fillLayers used layers).2 = some item) :
    budget.fits (used + budget.total (budget.fillLayers used layers).1 + budget.size item) = false ∧
      budget.wide (used + budget.total (budget.fillLayers used layers).1) = true := by
  induction layers generalizing used with
  | nil => cases hcut
  | cons layer later ih =>
      by_cases hshort : budget.cutsShort used layer = true
      · rw [fillLayers_cons_cut hshort] at hcut ⊢
        refine ⟨?_, (Bool.and_eq_true_iff.1 hshort).2⟩
        rcases budget.fill_cases used layer with hall | ⟨before, stopped, after, -, hfill, hnot⟩
        · rw [hall] at hcut
          cases hcut
        · rw [hfill] at hcut ⊢
          obtain rfl := Option.some.inj hcut
          exact hnot
      · rw [fillLayers_cons (Bool.eq_false_iff.2 hshort)] at hcut ⊢
        rw [total_append, ← Nat.add_assoc]
        exact ih hcut

theorem fillLayers_cut_none (hwide : budget.wide used = false) :
    (budget.fillLayers used layers).2 = none := by
  cases hcut : (budget.fillLayers used layers).2 with
  | none => rfl
  | some item =>
      have hleft := budget.wide_of_le (Nat.le_add_right _ _) (fillLayers_cut hcut).2
      rw [hwide] at hleft
      cases hleft

theorem fillLayers_ne_nil_iff (hwide : budget.wide used = false) :
    (budget.fillLayers used layers).1 ≠ [] ↔ ∃ layer ∈ layers, ∃ first, layer.head? = some first ∧
        budget.fits (used + budget.size first) = true := by
  induction layers with
  | nil => simp [fillLayers]
  | cons layer later ih =>
      have hhead : (budget.fill used layer).1 ≠ [] ↔ _ := fill_ne_nil_iff
      rw [fillLayers_cons (cutsShort_of_not_wide hwide), List.exists_mem_cons_iff, ← hhead]
      by_cases hnil : (budget.fill used layer).1 = []
      · simp only [hnil, total_nil, Nat.add_zero, List.nil_append, ne_eq, not_true_eq_false,
          false_or]
        exact ih
      · simp [hnil]

/-- What is taken comes in order, if no gap is filled. -/
theorem prefix_of_not_gapFilled (hgap : ¬budget.GapFilled used layers) :
    (budget.fillLayers used layers).1 ++ (budget.fillLayers used layers).2.toList <+:
      layers.flatten := by
  induction layers generalizing used with
  | nil => exact List.prefix_refl []
  | cons layer later ih =>
      rw [List.flatten_cons]
      rcases budget.fill_cases used layer with hall | ⟨before, stopped, after, rfl, hfill, hnot⟩
      · rw [fillLayers_cons (cutsShort_of_fill_none hall), hall, List.append_assoc,
          List.prefix_append_right_inj]
        exact ih fun hlater => hgap (.later hlater)
      · have hcut := cutsShort_of_fill_some hfill
        by_cases hwide : budget.wide (used + budget.total before) = true
        · rw [fillLayers_cons_cut (hcut.trans hwide), hfill]
          exact ⟨after ++ later.flatten, by simp⟩
        · have hsmall : budget.wide (used + budget.total before) = false := by simpa using hwide
          have hnone : (budget.fillLayers (used + budget.total before) later).1 = [] := by
            by_contra hne
            obtain ⟨layer, hlayer, first, hfirst, hfits⟩ := (fillLayers_ne_nil_iff hsmall).1 hne
            exact hgap (.here hnot hsmall hlayer hfirst hfits)
          rw [fillLayers_cons (hcut.trans hsmall), hfill, hnone, fillLayers_cut_none hsmall,
            List.append_nil, Option.toList_none, List.append_nil]
          exact ⟨stopped :: after ++ later.flatten, by simp⟩

theorem GapFilled.skips (hgap : budget.GapFilled used layers) :
    ∃ before stopped after more, layers.flatten = before ++ stopped :: after ∧
      budget.fillLayers used layers = (before ++ more, none) ∧ more ≠ [] ∧
        budget.fits (used + budget.total before + budget.size stopped) = false := by
  induction hgap with
  | @here used before after layer stopped first later hstopped hwide hlayer hfirst hfits =>
      have hbefore := budget.fits_of_le (Nat.le_add_right _ (budget.size first)) hfits
      have hfill : budget.fill used (before ++ stopped :: after) = (before, some stopped) :=
        fill_append hbefore hstopped
      have hcut := (cutsShort_of_fill_some hfill).trans hwide
      refine ⟨before, stopped, after ++ later.flatten,
        (budget.fillLayers (used + budget.total before) later).1, by simp, ?_, ?_, hstopped⟩
      · rw [fillLayers_cons hcut, hfill, fillLayers_cut_none hwide]
      · exact (fillLayers_ne_nil_iff hwide).2 ⟨layer, hlayer, first, hfirst, hfits⟩
  | @later used layer later hlater ih =>
      obtain ⟨before, stopped, after, more, hflatten, hfill, hmore, hstopped⟩ := ih
      have htotal : budget.fits (used + budget.total layer) = true := by
        have hne : (budget.fillLayers (used + budget.total layer) later).1 ≠ [] := by
          rw [hfill]
          simp [hmore]
        exact budget.fits_of_le (Nat.le_add_right _ _) (fits_fillLayers hne)
      have hlayer : budget.fill used layer = (layer, none) := by
        rcases budget.fill_cases used layer with hall | ⟨left, item, right, rfl, -, hnot⟩
        · exact hall
        · have hle : used + budget.total left + budget.size item ≤
              used + budget.total (left ++ item :: right) := by
            rw [total_append, total_cons]
            omega
          rw [budget.fits_of_le hle htotal] at hnot
          cases hnot
      refine ⟨layer ++ before, stopped, after, more, ?_, ?_, hmore, ?_⟩
      · rw [List.flatten_cons, hflatten, List.append_assoc]
      · rw [fillLayers_cons (cutsShort_of_fill_none hlayer), hlayer, hfill, List.append_assoc]
      · rw [total_append, ← Nat.add_assoc]
        exact hstopped

theorem not_gapFilled_of_fits (hfits : budget.fits (used + budget.total layers.flatten) = true) :
    ¬budget.GapFilled used layers := by
  intro hgap
  obtain ⟨before, stopped, after, more, hflatten, -, -, hstopped⟩ := hgap.skips
  have hle : used + budget.total before + budget.size stopped ≤
      used + budget.total layers.flatten := by
    rw [hflatten, total_append, total_cons]
    omega
  rw [budget.fits_of_le hle hfits] at hstopped
  cases hstopped

end LayeredBudget
