import Mathlib.Data.List.Chain
import Mathlib.Data.List.Infix

/-!
# Packing a list into groups

The items of a list are packed in their order.  An item that opens a section starts a group, and so
does one that does not fit behind the current group; in the second case the new group first repeats
the last items of the one before it.
-/

structure Packing (α : Type*) where
  opens : α → Bool
  fits : List α → Bool
  overlap : Option Nat

structure PackedGroup (α : Type*) where
  repeated : List α
  own : List α

def PackedGroup.items {α : Type*} (group : PackedGroup α) : List α := group.repeated ++ group.own

namespace Packing

variable {α : Type*} (packing : Packing α)

def repeats (items : List α) : List α :=
  match packing.overlap with
  | some limit => items.drop (items.length - limit)
  | none => items

def packFrom (group : PackedGroup α) : List α → List (PackedGroup α)
  | [] => [group]
  | item :: rest =>
      if packing.opens item then group :: packFrom ⟨[], [item]⟩ rest
      else if packing.fits (group.items ++ [item]) then
        packFrom ⟨group.repeated, group.own ++ [item]⟩ rest
      else group :: packFrom ⟨packing.repeats group.items, [item]⟩ rest

def pack : List α → List (PackedGroup α)
  | [] => []
  | item :: rest => packing.packFrom ⟨[], [item]⟩ rest

def Continues (group next : PackedGroup α) : Prop :=
  next.repeated = if next.own.head?.any packing.opens then [] else packing.repeats group.items

structure Packed (items : List α) (groups : List (PackedGroup α)) : Prop where
  conserved : groups.flatMap PackedGroup.own = items
  nonempty : ∀ group ∈ groups, group.own ≠ []
  first : ∀ group ∈ groups.head?, group.repeated = []
  linked : groups.IsChain packing.Continues
  sections : ∀ group ∈ groups, ∀ item ∈ group.items.tail, packing.opens item = false

/-- Some consecutive items, two at least, that a group would hold if the last of them were the first
that it does not repeat. -/
structure Window (items run : List α) : Prop where
  consecutive : run <:+: items
  two : 2 ≤ run.length
  within : ∀ limit ∈ packing.overlap, run.length ≤ limit + 1
  closed : ∀ item ∈ run.tail, packing.opens item = false

variable {packing} {group : PackedGroup α} {item : α} {items rest run : List α}

theorem repeats_suffix : packing.repeats items <:+ items := by
  unfold repeats
  split
  · exact List.drop_suffix _ _
  · exact List.suffix_refl _

theorem length_repeats_le (items : List α) {limit : Nat} (hlimit : limit ∈ packing.overlap) :
    (packing.repeats items).length ≤ limit := by
  obtain hlimit : packing.overlap = some limit := hlimit
  simp only [repeats, hlimit, List.length_drop]
  omega

theorem suffix_repeats (hrun : run <:+ items) (hwithin : ∀ limit ∈ packing.overlap,
    run.length ≤ limit) : run <:+ packing.repeats items := by
  unfold repeats
  split
  · rename_i limit hlimit
    apply List.suffix_of_suffix_length_le hrun (List.drop_suffix _ _)
    have hshort := hwithin limit hlimit
    have hle := hrun.length_le
    rw [List.length_drop]
    omega
  · exact hrun

variable {suffix : List α} {other : α} {next : PackedGroup α}

theorem suffix_concat (hsuffix : suffix <:+ items) (item : α) :
    suffix ++ [item] <:+ items ++ [item] := by
  obtain ⟨before, rfl⟩ := hsuffix
  exact ⟨before, (List.append_assoc _ _ _).symm⟩

theorem consecutive_of_suffix (hsuffix : suffix <:+ items) :
    suffix ++ [item] ++ rest <:+: items ++ item :: rest := by
  obtain ⟨before, rfl⟩ := hsuffix
  exact ⟨before, [], by simp⟩

theorem packFrom_opens (hopens : packing.opens item = true) :
    packing.packFrom group (item :: rest) = group :: packing.packFrom ⟨[], [item]⟩ rest := by
  rw [packFrom, if_pos hopens]

theorem packFrom_fits (hopens : packing.opens item = false)
    (hfits : packing.fits (group.items ++ [item]) = true) : packing.packFrom group (item :: rest) =
      packing.packFrom ⟨group.repeated, group.own ++ [item]⟩ rest := by
  rw [packFrom, if_neg (by simp [hopens]), if_pos hfits]

theorem packFrom_overflows (hopens : packing.opens item = false)
    (hfits : packing.fits (group.items ++ [item]) = false) : packing.packFrom group (item :: rest) =
      group :: packing.packFrom ⟨packing.repeats group.items, [item]⟩ rest := by
  rw [packFrom, if_neg (by simp [hopens]), if_neg (by simp [hfits])]

theorem exists_head_packFrom (group : PackedGroup α) (rest : List α) :
    ∃ more groups, packing.packFrom group rest = ⟨group.repeated, group.own ++ more⟩ :: groups := by
  induction rest generalizing group with
  | nil => exact ⟨[], [], by simp [packFrom]⟩
  | cons item rest ih =>
      cases hopens : packing.opens item with
      | true => exact ⟨[], _, by rw [packFrom_opens hopens, List.append_nil]⟩
      | false =>
          cases hfits : packing.fits (group.items ++ [item]) with
          | true =>
              obtain ⟨more, groups, hgroups⟩ := ih ⟨group.repeated, group.own ++ [item]⟩
              refine ⟨item :: more, groups, ?_⟩
              rw [packFrom_fits hopens hfits, hgroups, List.append_assoc, List.singleton_append]
          | false => exact ⟨[], _, by rw [packFrom_overflows hopens hfits, List.append_nil]⟩

theorem items_concat : (⟨group.repeated, group.own ++ [item]⟩ : PackedGroup α).items =
    group.items ++ [item] := by
  simp only [PackedGroup.items, List.append_assoc]

theorem length_items_concat (kept : List α) (item : α) :
    (⟨kept, [item]⟩ : PackedGroup α).items.length = kept.length + 1 := by
  rw [PackedGroup.items, List.length_append, List.length_singleton]

theorem flatMap_own_packFrom (group : PackedGroup α) (rest : List α) :
    (packing.packFrom group rest).flatMap PackedGroup.own = group.own ++ rest := by
  induction rest generalizing group with
  | nil => simp [packFrom]
  | cons item rest ih =>
      unfold packFrom
      split
      · rw [List.flatMap_cons, ih, List.singleton_append]
      · split
        · rw [ih, List.append_assoc, List.singleton_append]
        · rw [List.flatMap_cons, ih, List.singleton_append]

theorem own_ne_nil_of_mem_packFrom (hown : group.own ≠ []) :
    ∀ other ∈ packing.packFrom group rest, other.own ≠ [] := by
  induction rest generalizing group with
  | nil => simpa [packFrom] using hown
  | cons item rest ih =>
      unfold packFrom
      split
      · exact List.forall_mem_cons.mpr ⟨hown, ih (List.cons_ne_nil _ _)⟩
      · split
        · exact ih (List.append_ne_nil_of_right_ne_nil _ (List.cons_ne_nil _ _))
        · exact List.forall_mem_cons.mpr ⟨hown, ih (List.cons_ne_nil _ _)⟩

theorem isChain_cons_packFrom {before : PackedGroup α} (hown : group.own ≠ [])
    (hcontinues : packing.Continues before group)
    (hchain : (packing.packFrom group rest).IsChain packing.Continues) :
    (before :: packing.packFrom group rest).IsChain packing.Continues := by
  obtain ⟨more, groups, hgroups⟩ := @exists_head_packFrom _ packing group rest
  rw [hgroups] at hchain ⊢
  refine List.isChain_cons_cons.mpr ⟨?_, hchain⟩
  rw [Continues, List.head?_append_of_ne_nil _ hown]
  exact hcontinues

theorem isChain_packFrom (hown : group.own ≠ []) :
    (packing.packFrom group rest).IsChain packing.Continues := by
  induction rest generalizing group with
  | nil => exact List.isChain_singleton group
  | cons item rest ih =>
      cases hopens : packing.opens item with
      | true =>
          rw [packFrom_opens hopens]
          apply isChain_cons_packFrom (List.cons_ne_nil _ _) _ (ih (List.cons_ne_nil _ _))
          simp [Continues, hopens]
      | false =>
          cases hfits : packing.fits (group.items ++ [item]) with
          | true =>
              rw [packFrom_fits hopens hfits]
              exact ih (List.append_ne_nil_of_right_ne_nil _ (List.cons_ne_nil _ _))
          | false =>
              rw [packFrom_overflows hopens hfits]
              apply isChain_cons_packFrom (List.cons_ne_nil _ _) _ (ih (List.cons_ne_nil _ _))
              simp [Continues, hopens]

theorem mem_tail_of_suffix (hsuffix : suffix <:+ items) (hother : other ∈ suffix.tail) :
    other ∈ items.tail := by
  obtain ⟨before, rfl⟩ := hsuffix
  cases before with
  | nil => exact hother
  | cons first before => exact List.mem_append_right before (List.mem_of_mem_tail hother)

theorem mem_tail_concat (hother : other ∈ (items ++ [item]).tail) :
    other ∈ items.tail ∨ other = item := by
  cases items with
  | nil => simp at hother
  | cons first items => simpa using hother

theorem unopened_of_mem_packFrom
    (hgroup : ∀ other ∈ group.items.tail, packing.opens other = false) :
    ∀ next ∈ packing.packFrom group rest, ∀ other ∈ next.items.tail,
      packing.opens other = false := by
  induction rest generalizing group with
  | nil => simpa [packFrom] using hgroup
  | cons item rest ih =>
      cases hopens : packing.opens item with
      | true =>
          rw [packFrom_opens hopens]
          apply List.forall_mem_cons.mpr ⟨hgroup, ih _⟩
          simp [PackedGroup.items]
      | false =>
          have hadded : ∀ {kept : List α}, kept <:+ group.items →
              ∀ other ∈ (kept ++ [item]).tail, packing.opens other = false := by
            intro kept hkept other hother
            rcases mem_tail_concat hother with hother | rfl
            · exact hgroup other (mem_tail_of_suffix hkept hother)
            · exact hopens
          cases hfits : packing.fits (group.items ++ [item]) with
          | true =>
              rw [packFrom_fits hopens hfits]
              apply ih
              rw [items_concat]
              exact hadded (List.suffix_refl _)
          | false =>
              rw [packFrom_overflows hopens hfits]
              exact List.forall_mem_cons.mpr ⟨hgroup, ih (hadded repeats_suffix)⟩

theorem packed_pack (items : List α) : packing.Packed items (packing.pack items) := by
  cases items with
  | nil => exact ⟨rfl, by simp [pack], by simp [pack], List.isChain_nil, by simp [pack]⟩
  | cons item rest =>
      refine ⟨flatMap_own_packFrom _ _, ?_, ?_, ?_, ?_⟩
      · exact own_ne_nil_of_mem_packFrom (List.cons_ne_nil _ _)
      · obtain ⟨more, groups, hgroups⟩ :=
          @exists_head_packFrom _ packing ⟨[], [item]⟩ rest
        simp [pack, hgroups]
      · exact isChain_packFrom (List.cons_ne_nil _ _)
      · exact unopened_of_mem_packFrom (by simp [PackedGroup.items])

theorem consecutive_of_mem_packFrom (hitems : group.items ++ rest <:+: items) :
    ∀ next ∈ packing.packFrom group rest, next.items <:+: items := by
  induction rest generalizing group with
  | nil => simpa [packFrom] using hitems
  | cons item rest ih =>
      have hgroup : group.items <:+: items := (List.prefix_append _ _).isInfix.trans hitems
      unfold packFrom
      split
      · refine List.forall_mem_cons.mpr ⟨hgroup, ih ?_⟩
        exact (List.suffix_append group.items _).isInfix.trans hitems
      · split
        · apply ih
          rwa [items_concat, List.append_assoc]
        · refine List.forall_mem_cons.mpr ⟨hgroup, ih ?_⟩
          exact (consecutive_of_suffix repeats_suffix).trans hitems

theorem consecutive_of_mem_pack (hnext : next ∈ packing.pack items) : next.items <:+: items := by
  cases items with
  | nil => cases hnext
  | cons item rest => exact consecutive_of_mem_packFrom (List.infix_refl _) next hnext

theorem fits_or_single_of_mem_packFrom
    (hgroup : packing.fits group.items = true ∨ group.own.length = 1) :
    ∀ next ∈ packing.packFrom group rest, packing.fits next.items = true ∨ next.own.length = 1 := by
  induction rest generalizing group with
  | nil => simpa [packFrom] using hgroup
  | cons item rest ih =>
      unfold packFrom
      split
      · exact List.forall_mem_cons.mpr ⟨hgroup, ih (.inr rfl)⟩
      · split
        · rename_i hfits
          apply ih
          rw [items_concat]
          exact .inl hfits
        · exact List.forall_mem_cons.mpr ⟨hgroup, ih (.inr rfl)⟩

theorem fits_or_single_of_mem_pack (hnext : next ∈ packing.pack items) :
    packing.fits next.items = true ∨ next.own.length = 1 := by
  cases items with
  | nil => cases hnext
  | cons item rest => exact fits_or_single_of_mem_packFrom (.inr rfl) next hnext

def Bounded (packing : Packing α) (group : PackedGroup α) : Prop :=
  packing.fits group.items = true ∨ group.items.length = 1

theorem bounded_of_mem_packFrom (hbounded : packing.Bounded group)
    (hgroup : ∀ other ∈ group.items.tail, packing.opens other = false)
    (hitems : group.items ++ rest <:+: items)
    (hwindows : ∀ run, packing.Window items run → packing.fits run = true) :
    ∀ next ∈ packing.packFrom group rest, packing.Bounded next := by
  induction rest generalizing group with
  | nil => simpa [packFrom] using hbounded
  | cons item rest ih =>
      have hafter : [item] ++ rest <:+: items := (List.suffix_append _ _).isInfix.trans hitems
      have hsingle : packing.Bounded ⟨[], [item]⟩ := .inr rfl
      cases hopens : packing.opens item with
      | true =>
          rw [packFrom_opens hopens]
          exact List.forall_mem_cons.mpr ⟨hbounded, ih hsingle (by simp [PackedGroup.items]) hafter⟩
      | false =>
          have hclosed : ∀ {kept : List α}, kept <:+ group.items →
              ∀ other ∈ (kept ++ [item]).tail, packing.opens other = false := by
            intro kept hkept other hother
            rcases mem_tail_concat hother with hother | rfl
            · exact hgroup other (mem_tail_of_suffix hkept hother)
            · exact hopens
          have hkept : ∀ {kept : List α}, kept <:+ group.items →
              kept ++ [item] ++ rest <:+: items :=
            fun hkept => (consecutive_of_suffix hkept).trans hitems
          cases hfits : packing.fits (group.items ++ [item]) with
          | true =>
              rw [packFrom_fits hopens hfits]
              apply ih
              · exact .inl (by rw [items_concat]; exact hfits)
              · rw [items_concat]
                exact hclosed (List.suffix_refl _)
              · rw [items_concat]
                exact hkept (List.suffix_refl _)
          | false =>
              rw [packFrom_overflows hopens hfits]
              refine List.forall_mem_cons.mpr ⟨hbounded, ih ?_ (hclosed repeats_suffix)
                (hkept repeats_suffix)⟩
              by_cases hnone : packing.repeats group.items = []
              · rw [hnone]
                exact hsingle
              · apply Or.inl
                apply hwindows
                have hpos := List.length_pos_iff.mpr hnone
                refine ⟨?_, ?_, ?_, hclosed repeats_suffix⟩
                · exact (List.prefix_append _ rest).isInfix.trans (hkept repeats_suffix)
                · rw [length_items_concat]
                  omega
                · intro limit hlimit
                  have hle := length_repeats_le group.items hlimit
                  rw [length_items_concat]
                  omega

theorem exists_ends {run : List α} (htwo : 2 ≤ run.length) :
    ∃ first middle last, run = first :: middle ++ [last] := by
  cases run with
  | nil => simp at htwo
  | cons first run =>
      have hne : run ≠ [] := by
        rintro rfl
        simp at htwo
      exact ⟨first, run.dropLast, run.getLast hne, by
        rw [List.cons_append, List.dropLast_concat_getLast hne]⟩

section Monotone

variable (hfits : ∀ {short long : List α}, short <:+: long → packing.fits long = true →
  packing.fits short = true)

include hfits in
theorem not_fits_of_within {short long : List α} (hwithin : short <:+: long)
    (hshort : packing.fits short = false) : packing.fits long = false := by
  apply Bool.eq_false_iff.mpr
  intro hlong
  rw [hfits hwithin hlong] at hshort
  cases hshort

include hfits in
theorem unbounded_head (hlarge : packing.fits group.items = false) (htwo : 2 ≤ group.items.length)
    (rest : List α) : ∃ next ∈ packing.packFrom group rest, ¬packing.Bounded next := by
  obtain ⟨more, groups, hgroups⟩ := @exists_head_packFrom _ packing group rest
  refine ⟨_, hgroups ▸ List.mem_cons_self, ?_⟩
  have hitems : (⟨group.repeated, group.own ++ more⟩ : PackedGroup α).items =
      group.items ++ more := by
    simp only [PackedGroup.items, List.append_assoc]
  rintro (hfit | hone)
  · rw [hitems] at hfit
    have hnot := not_fits_of_within hfits (List.prefix_append group.items more).isInfix hlarge
    rw [hfit] at hnot
    cases hnot
  · rw [hitems, List.length_append] at hone
    omega

include hfits in
theorem unbounded_of_window {start middle after : List α} {last : α}
    (hstart : start <:+ group.items) (hne : start ≠ [])
    (hclosed : ∀ item ∈ middle ++ [last], packing.opens item = false)
    (hwithin : ∀ limit ∈ packing.overlap, (start ++ middle).length ≤ limit)
    (hlarge : packing.fits (start ++ middle ++ [last]) = false) :
    ∃ next ∈ packing.packFrom group (middle ++ last :: after), ¬packing.Bounded next := by
  have hrepeated : start <:+ packing.repeats group.items := by
    apply suffix_repeats hstart
    intro limit hlimit
    have hle := hwithin limit hlimit
    rw [List.length_append] at hle
    omega
  induction middle generalizing group start with
  | nil =>
      have hopens : packing.opens last = false := hclosed last (by simp)
      rw [List.append_nil] at hwithin hlarge
      have hall : packing.fits (group.items ++ [last]) = false :=
        not_fits_of_within hfits (suffix_concat hstart last).isInfix hlarge
      have htwo : 2 ≤ (⟨packing.repeats group.items, [last]⟩ : PackedGroup α).items.length := by
        have hle := hrepeated.length_le
        have hpos := List.length_pos_iff.mpr hne
        rw [length_items_concat]
        omega
      obtain ⟨next, hnext, hunbounded⟩ := unbounded_head hfits
        (not_fits_of_within hfits (suffix_concat hrepeated last).isInfix hlarge) htwo after
      refine ⟨next, ?_, hunbounded⟩
      rw [List.nil_append, packFrom_overflows hopens hall]
      exact List.mem_cons_of_mem _ hnext
  | cons item middle ih =>
      have hopens : packing.opens item = false := hclosed item (by simp)
      have hnext : ∀ next : PackedGroup α, start ++ [item] <:+ next.items →
          ∃ other ∈ packing.packFrom next (middle ++ last :: after), ¬packing.Bounded other := by
        intro next hsuffix
        have hrest : start ++ [item] ++ middle = start ++ item :: middle := by simp
        apply ih hsuffix (by simp) (fun other hother => hclosed other (List.mem_cons_of_mem _ hother))
        · rwa [hrest]
        · rwa [hrest]
        · apply suffix_repeats hsuffix
          intro limit hlimit
          have hle := hwithin limit hlimit
          rw [← hrest, List.length_append] at hle
          omega
      cases hall : packing.fits (group.items ++ [item]) with
      | true =>
          rw [List.cons_append, packFrom_fits hopens hall]
          apply hnext
          rw [items_concat]
          exact suffix_concat hstart item
      | false =>
          rw [List.cons_append, packFrom_overflows hopens hall]
          obtain ⟨other, hother, hunbounded⟩ :=
            hnext ⟨packing.repeats group.items, [item]⟩ (suffix_concat hrepeated item)
          exact ⟨other, List.mem_cons_of_mem _ hother, hunbounded⟩

include hfits in
theorem unbounded_of_reached {before middle after : List α} {first last : α}
    (hclosed : ∀ item ∈ middle ++ [last], packing.opens item = false)
    (hwithin : ∀ limit ∈ packing.overlap, (first :: middle).length ≤ limit)
    (hlarge : packing.fits (first :: middle ++ [last]) = false) :
    ∃ next ∈ packing.packFrom group (before ++ first :: middle ++ last :: after),
      ¬packing.Bounded next := by
  have hreached : ∀ next : PackedGroup α, [first] <:+ next.items →
      ∃ other ∈ packing.packFrom next (middle ++ last :: after), ¬packing.Bounded other :=
    fun _ hsuffix => unbounded_of_window hfits hsuffix (by simp) hclosed hwithin hlarge
  induction before generalizing group with
  | nil =>
      rw [List.nil_append, List.cons_append]
      unfold packFrom
      split
      · obtain ⟨other, hother, hunbounded⟩ := hreached ⟨[], [first]⟩ (List.suffix_refl _)
        exact ⟨other, List.mem_cons_of_mem _ hother, hunbounded⟩
      · split
        · apply hreached
          rw [items_concat]
          exact List.suffix_append _ _
        · obtain ⟨other, hother, hunbounded⟩ :=
            hreached ⟨packing.repeats group.items, [first]⟩ (List.suffix_append _ _)
          exact ⟨other, List.mem_cons_of_mem _ hother, hunbounded⟩
  | cons item before ih =>
      rw [List.cons_append, List.cons_append]
      unfold packFrom
      split
      · obtain ⟨other, hother, hunbounded⟩ := @ih ⟨[], [item]⟩
        exact ⟨other, List.mem_cons_of_mem _ hother, hunbounded⟩
      · split
        · exact ih
        · obtain ⟨other, hother, hunbounded⟩ :=
            @ih ⟨packing.repeats group.items, [item]⟩
          exact ⟨other, List.mem_cons_of_mem _ hother, hunbounded⟩

include hfits in
/-- The groups of several items fit exactly if every window does. -/
theorem bounded_pack_iff (items : List α) : (∀ group ∈ packing.pack items, packing.Bounded group) ↔
      ∀ run, packing.Window items run → packing.fits run = true := by
  constructor
  · intro hbounded run hwindow
    by_contra hlarge
    rw [Bool.not_eq_true] at hlarge
    obtain ⟨first, middle, last, rfl⟩ := exists_ends hwindow.two
    obtain ⟨before, after, rfl⟩ := hwindow.consecutive
    have hclosed : ∀ item ∈ middle ++ [last], packing.opens item = false := hwindow.closed
    have hwithin : ∀ limit ∈ packing.overlap, (first :: middle).length ≤ limit := by
      intro limit hlimit
      have hle := hwindow.within limit hlimit
      rw [List.length_append, List.length_singleton] at hle
      omega
    have hunbounded : ∃ group ∈ packing.pack (before ++ (first :: middle ++ [last]) ++ after),
        ¬packing.Bounded group := by
      have hsplit : before ++ (first :: middle ++ [last]) ++ after =
          before ++ first :: middle ++ last :: after := by simp
      rw [hsplit]
      cases before with
      | nil =>
          exact unbounded_of_window hfits (List.suffix_refl [first]) (List.cons_ne_nil _ _)
            hclosed hwithin hlarge
      | cons item before => exact unbounded_of_reached hfits hclosed hwithin hlarge
    obtain ⟨group, hgroup, hnot⟩ := hunbounded
    exact hnot (hbounded group hgroup)
  · intro hwindows
    cases items with
    | nil => simp [pack]
    | cons item rest =>
        apply bounded_of_mem_packFrom (.inr rfl) (by simp [PackedGroup.items]) _ hwindows
        exact List.infix_refl _

end Monotone

end Packing
