import Mathlib.Data.List.DropRight

/-!
# Texts made of lines

Lines are separated by one element, which is in none of them.
-/

/-!
## Trimming

A list is trimmed by dropping from both of its ends what a test holds of.
-/

namespace Trim

section Lists

variable {α : Type*} {p : α → Bool} {l : List α}

def trim (p : α → Bool) (l : List α) : List α := (l.dropWhile p).rdropWhile p

variable {blanks : List α}

section

variable (hblanks : ∀ a ∈ blanks, p a = true)
include hblanks

theorem trim_append_left : trim p (blanks ++ l) = trim p l := by
  rw [trim, List.dropWhile_append_of_pos hblanks, trim]

theorem rdropWhile_append_right : (l ++ blanks).rdropWhile p = l.rdropWhile p := by
  rw [List.rdropWhile, List.reverse_append, List.dropWhile_append_of_pos, List.rdropWhile]
  exact fun a ha => hblanks a (List.mem_reverse.mp ha)

theorem trim_append_right : trim p (l ++ blanks) = trim p l := by
  rw [trim, List.dropWhile_append]
  split
  · rename_i hempty
    have hnil : l.dropWhile p = [] := List.isEmpty_iff.mp hempty
    have hall : blanks.dropWhile p = [] := List.dropWhile_eq_nil_iff.mpr hblanks
    rw [trim, hnil, hall]
  · rw [rdropWhile_append_right hblanks, trim]

end

theorem dropWhile_trim : (trim p l).dropWhile p = trim p l := by
  cases htrim : trim p l with
  | nil => rfl
  | cons first rest =>
      obtain ⟨suffix, hsuffix⟩ : trim p l <+: l.dropWhile p := List.rdropWhile_prefix p _
      have hhead : (l.dropWhile p).head? = some first := by
        rw [← hsuffix, htrim]
        rfl
      have hfirst := List.head?_dropWhile_not p l
      rw [hhead] at hfirst
      exact List.dropWhile_cons_of_neg (by simpa using hfirst)

theorem filter_trim : (trim p l).filter (fun a => !p a) = l.filter fun a => !p a := by
  have hdrop : ∀ list : List α,
      (list.dropWhile p).filter (fun a => !p a) = list.filter fun a => !p a := by
    intro list
    induction list with
    | nil => rfl
    | cons a rest ih =>
        by_cases ha : p a = true
        · rw [List.dropWhile_cons_of_pos ha, ih, List.filter_cons_of_neg (by simpa using ha)]
        · rw [List.dropWhile_cons_of_neg ha]
  rw [trim, List.rdropWhile, List.filter_reverse, hdrop, List.filter_reverse, List.reverse_reverse,
    hdrop]

theorem trim_trim : trim p (trim p l) = trim p l := by
  calc
    trim p (trim p l) = (trim p l).rdropWhile p := by rw [trim, dropWhile_trim]
    _ = trim p l := List.rdropWhile_idempotent p _

end Lists

end Trim

namespace LineText

section

variable {α : Type*} [DecidableEq α] {separator : α}

variable {line last : List α} {lines : List (List α)}

theorem not_mem_of_mem_splitOn {text : List α} (hline : line ∈ text.splitOn separator) :
    separator ∉ line := by
  induction text generalizing line with
  | nil =>
      rw [List.splitOn_nil, List.mem_singleton] at hline
      exact hline ▸ List.not_mem_nil
  | cons c text ih =>
      rw [List.splitOn_cons_eq_if_modifyHead] at hline
      split at hline
      · cases List.mem_cons.mp hline with
        | inl heq => exact heq ▸ List.not_mem_nil
        | inr hmem => exact ih hmem
      · rename_i hne
        obtain ⟨first, rest, hlines⟩ :=
          List.exists_cons_of_ne_nil (List.splitOn_ne_nil separator text)
        rw [hlines, List.modifyHead_cons] at hline
        cases List.mem_cons.mp hline with
        | inl heq =>
            rw [heq, List.mem_cons, not_or]
            exact ⟨fun h => hne (beq_iff_eq.mpr h.symm), ih (hlines ▸ List.mem_cons_self)⟩
        | inr hmem => exact ih (hlines ▸ List.mem_cons_of_mem _ hmem)

omit [DecidableEq α] in
theorem append_separator_inj {first other rest rest' : List α} (hfirst : separator ∉ first)
    (hother : separator ∉ other) (heq : first ++ separator :: rest = other ++ separator :: rest') :
    first = other ∧ rest = rest' := by
  rcases List.append_eq_append_iff.mp heq with ⟨more, hmore, hrest⟩ | ⟨more, hmore, hrest⟩
  · cases more with
    | nil => exact ⟨by rw [hmore, List.append_nil], (List.cons.inj hrest).2⟩
    | cons c more =>
        rw [hmore, (List.cons.inj hrest).1] at hother
        exact absurd (List.mem_append_right _ List.mem_cons_self) hother
  · cases more with
    | nil => exact ⟨by rw [hmore, List.append_nil], (List.cons.inj hrest).2.symm⟩
    | cons c more =>
        rw [hmore, (List.cons.inj hrest).1] at hfirst
        exact absurd (List.mem_append_right _ List.mem_cons_self) hfirst

omit [DecidableEq α] in
theorem intercalate_append {lines' : List (List α)} (hne : lines ≠ []) (hne' : lines' ≠ []) :
    [separator].intercalate (lines ++ lines') =
      [separator].intercalate lines ++ separator :: [separator].intercalate lines' := by
  induction lines with
  | nil => exact absurd rfl hne
  | cons line lines ih =>
      rw [List.cons_append, List.intercalate_cons_of_ne_nil (by simp [hne'])]
      by_cases hnil : lines = []
      · rw [hnil, List.nil_append, List.intercalate_singleton, List.append_assoc]
        rfl
      · rw [ih hnil, List.intercalate_cons_of_ne_nil hnil, List.append_assoc, List.append_assoc,
          List.append_assoc]

omit [DecidableEq α] in
theorem prefix_intercalate_cons (hlast : separator ∉ last) :
    last <+: [separator].intercalate (line :: lines) ↔ last <+: line := by
  by_cases hnil : lines = []
  · rw [hnil, List.intercalate_singleton]
  rw [List.intercalate_cons_of_ne_nil hnil, List.append_assoc]
  constructor
  · rintro ⟨rest, hrest⟩
    rcases List.append_eq_append_iff.mp hrest with ⟨more, hmore, -⟩ | ⟨more, hmore, hseparator⟩
    · exact ⟨more, hmore.symm⟩
    · cases more with
      | nil => exact ⟨[], by rw [hmore, List.append_nil, List.append_nil]⟩
      | cons c more =>
          rw [hmore, ← (List.cons.inj hseparator).1] at hlast
          exact absurd (List.mem_append_right _ List.mem_cons_self) hlast
  · exact fun hprefix => hprefix.trans (List.prefix_append _ _)

omit [DecidableEq α] in
/-- Lines put together begin other lines put together exactly if the last of them begins a line. -/
theorem intercalate_prefix_iff {front : List (List α)} (hne : lines ≠ [])
    (hfront : ∀ line ∈ front, separator ∉ line) (hlast : separator ∉ last)
    (hlines : ∀ line ∈ lines, separator ∉ line) :
    [separator].intercalate (front ++ [last]) <+: [separator].intercalate lines ↔
      ∃ suffix rest, lines = front ++ (last ++ suffix) :: rest := by
  induction front generalizing lines with
  | nil =>
      obtain ⟨line, rest, rfl⟩ := List.exists_cons_of_ne_nil hne
      rw [List.nil_append, List.intercalate_singleton, prefix_intercalate_cons hlast]
      constructor
      · rintro ⟨suffix, rfl⟩
        exact ⟨suffix, rest, rfl⟩
      · rintro ⟨suffix, rest', heq⟩
        rw [(List.cons.inj heq).1]
        exact List.prefix_append _ _
  | cons first front ih =>
      obtain ⟨line, rest, rfl⟩ := List.exists_cons_of_ne_nil hne
      obtain ⟨hfirst, hfront⟩ := List.forall_mem_cons.mp hfront
      obtain ⟨hline, hrest⟩ := List.forall_mem_cons.mp hlines
      have hrec := fun hnil : rest ≠ [] => ih hnil hfront hrest
      rw [List.cons_append, List.intercalate_cons_of_ne_nil (by simp), List.append_assoc]
      constructor
      · rintro ⟨more, hmore⟩
        by_cases hnil : rest = []
        · rw [hnil, List.intercalate_singleton] at hmore
          rw [← hmore] at hline
          exact absurd (by simp) hline
        · rw [List.intercalate_cons_of_ne_nil hnil, List.append_assoc, List.append_assoc,
            List.append_assoc] at hmore
          obtain ⟨rfl, htail⟩ := append_separator_inj hfirst hline hmore
          obtain ⟨suffix, rest', rfl⟩ := (hrec hnil).mp ⟨more, htail⟩
          exact ⟨suffix, rest', rfl⟩
      · rintro ⟨suffix, rest', heq⟩
        obtain ⟨rfl, rfl⟩ := List.cons.inj heq
        rw [List.intercalate_cons_of_ne_nil (by simp), List.append_assoc]
        have htail := (hrec (by simp)).mpr ⟨suffix, rest', rfl⟩
        exact (List.prefix_append_right_inj _).mpr ((List.prefix_append_right_inj _).mpr htail)

end

end LineText
