import Mathlib.Data.List.Nodup
import Mathlib.Data.List.Perm.Subperm
import Mathlib.Data.Set.Insert
import Mathlib.Data.List.Induction

/-!
# A single pass that marks elements

A pass visits the elements of a list one after the other and marks some of them; whether it marks
an element depends on what it has marked so far.  The marks are the same for every order of the
list exactly when no element's mark depends on the other elements that are marked on sight.
-/

universe u

namespace OnePass

variable {α : Type u} (Marks : Set α → α → Prop)

open Classical in
noncomputable def mark (marked : Set α) (a : α) : Set α :=
  if Marks marked a then insert a marked else marked

noncomputable def pass (l : List α) (marked : Set α) : Set α := l.foldl (mark Marks) marked

@[simp]
theorem pass_nil (marked : Set α) : pass Marks [] marked = marked := rfl

theorem pass_cons (a : α) (l : List α) (marked : Set α) :
    pass Marks (a :: l) marked = pass Marks l (mark Marks marked a) := rfl

theorem pass_append (l m : List α) (marked : Set α) :
    pass Marks (l ++ m) marked = pass Marks m (pass Marks l marked) :=
  List.foldl_append ..

variable {Marks}

variable {marked : Set α} {a : α} {l front : List α}

theorem mem_mark {b : α} : b ∈ mark Marks marked a ↔ b ∈ marked ∨ b = a ∧ Marks marked a := by
  unfold mark
  split
  · rename_i hmarks
    simp [hmarks, or_comm]
  · rename_i hmarks
    simp [hmarks]

theorem mem_pass_of_notMem (hout : a ∉ l) : a ∈ pass Marks l marked ↔ a ∈ marked := by
  induction l generalizing marked with
  | nil => rfl
  | cons b l ih =>
      rw [List.mem_cons, not_or] at hout
      rw [pass_cons, ih hout.2, mem_mark]
      simp [hout.1]

theorem mem_pass_turn {back : List α} (hfront : a ∉ front) (hback : a ∉ back) (hnew : a ∉ marked) :
    a ∈ pass Marks (front ++ a :: back) marked ↔ Marks (pass Marks front marked) a := by
  rw [pass_append, pass_cons, mem_pass_of_notMem hback, mem_mark, mem_pass_of_notMem hfront]
  simp [hnew]

theorem pass_append_singleton (l : List α) (a : α) (marked : Set α) :
    pass Marks (l ++ [a]) marked = mark Marks (pass Marks l marked) a :=
  pass_append Marks l [a] marked

/-- Marking other elements that are marked on sight changes no element's mark. -/
def Insensitive (Marks : Set α → α → Prop) (l : List α) : Prop :=
  ∀ a ∈ l, ∀ T : Set α, (∀ t ∈ T, t ∈ l ∧ Marks ∅ t) → a ∉ T → (Marks T a ↔ Marks ∅ a)

theorem pass_of_insensitive (hinsensitive : Insensitive Marks l) (hnodup : front.Nodup)
    (hsubset : ∀ a ∈ front, a ∈ l) : pass Marks front ∅ = {a | a ∈ front ∧ Marks ∅ a} := by
  induction front using List.reverseRecOn with
  | nil => simp
  | append_singleton front a ih =>
      rw [List.nodup_append] at hnodup
      have hprefix := ih hnodup.1 fun b hb => hsubset b (List.mem_append_left _ hb)
      have hfresh : a ∉ front := fun ha => hnodup.2.2 a ha a (List.mem_singleton_self a) rfl
      have hturn : Marks {b | b ∈ front ∧ Marks ∅ b} a ↔ Marks ∅ a :=
        hinsensitive a (hsubset a (by simp)) _
          (fun b hb => ⟨hsubset b (List.mem_append_left _ hb.1), hb.2⟩) fun ha => hfresh ha.1
      ext b
      rw [pass_append_singleton, hprefix, mem_mark, hturn]
      simp only [Set.mem_ofPred_eq, List.mem_append, List.mem_singleton]
      constructor
      · rintro (⟨hb, hmarks⟩ | ⟨rfl, hmarks⟩)
        · exact ⟨.inl hb, hmarks⟩
        · exact ⟨.inr rfl, hmarks⟩
      · rintro ⟨hb | rfl, hmarks⟩
        · exact .inl ⟨hb, hmarks⟩
        · exact .inr ⟨rfl, hmarks⟩

section Permutations

variable {l : List α}

section

variable (hnodup : l.Nodup) (hperm : ∀ l', l'.Perm l → pass Marks l' ∅ = pass Marks l ∅)
include hnodup hperm

/-- If all orders agree, a pass marks exactly what it would mark on sight. -/
theorem mem_pass_iff_on_sight {a : α} (ha : a ∈ l) : a ∈ pass Marks l ∅ ↔ Marks ∅ a := by
  obtain ⟨front, back, rfl⟩ := List.append_of_mem ha
  have hfirst : (a :: (front ++ back)).Perm (front ++ a :: back) := List.perm_middle.symm
  have hout : a ∉ front ++ back := (List.nodup_cons.1 (hfirst.nodup_iff.2 hnodup)).1
  rw [← hperm _ hfirst]
  rw [pass_cons, mem_pass_of_notMem hout, mem_mark]
  simp

theorem pass_on_sight {first rest : List α} (hsplit : (first ++ rest).Perm l)
    (hsight : ∀ t ∈ first, Marks ∅ t) :
    pass Marks first ∅ = {t | t ∈ first} := by
  induction first using List.reverseRecOn generalizing rest with
  | nil => simp
  | append_singleton first a ih =>
      have hsplit' : (first ++ a :: rest).Perm l := by simpa using hsplit
      have hprefix := ih hsplit' fun t ht => hsight t (List.mem_append_left _ ht)
      have hnodup' := hsplit'.nodup_iff.2 hnodup
      have hfront : a ∉ first := fun h => (List.nodup_append.1 hnodup').2.2 a h a (by simp) rfl
      have hback : a ∉ rest := (List.nodup_cons.1 (List.nodup_append.1 hnodup').2.1).1
      have ha : a ∈ l := hsplit'.mem_iff.1 (by simp)
      have hmarked : a ∈ pass Marks (first ++ a :: rest) ∅ := by
        rw [hperm _ hsplit', mem_pass_iff_on_sight hnodup hperm ha]
        exact hsight a (by simp)
      rw [mem_pass_turn hfront hback (by simp), hprefix] at hmarked
      ext b
      rw [pass_append_singleton, hprefix, mem_mark]
      simp [hmarked]

end

theorem pass_perm_iff (hnodup : l.Nodup) :
    (∀ l', l'.Perm l → pass Marks l' ∅ = pass Marks l ∅) ↔ Insensitive Marks l := by
  classical
  constructor
  · intro hperm a ha T hT hnew
    let first := l.filter (· ∈ T)
    have hfirst : ∀ t, t ∈ first ↔ t ∈ T := fun t => by
      simpa [first] using fun ht => (hT t ht).1
    have hafresh : a ∉ first := fun h => hnew ((hfirst a).1 h)
    have hsub : (first ++ [a]).Subperm l := by
      refine List.Nodup.subperm ?_ ?_
      · exact List.Nodup.append (hnodup.filter _) (List.nodup_singleton a) (by simpa using hafresh)
      · intro t ht
        rcases List.mem_append.1 ht with ht | ht
        · exact List.mem_of_mem_filter ht
        · exact List.mem_singleton.1 ht ▸ ha
    obtain ⟨sub, hsubPerm, hsublist⟩ := hsub
    obtain ⟨rest, hrest⟩ := hsublist.exists_perm_append
    have hsplit : (first ++ a :: rest).Perm l := by
      refine List.Perm.trans ?_ hrest.symm
      simpa using hsubPerm.symm.append_right rest
    have hback : a ∉ rest := by
      have hnodup' := hsplit.nodup_iff.2 hnodup
      exact (List.nodup_cons.1 (List.nodup_append.1 hnodup').2.1).1
    have hset : pass Marks first ∅ = T := by
      rw [pass_on_sight hnodup hperm hsplit fun t ht => (hT t ((hfirst t).1 ht)).2]
      ext t
      exact hfirst t
    calc
      Marks T a ↔ a ∈ pass Marks (first ++ a :: rest) ∅ := by
        rw [mem_pass_turn hafresh hback (by simp), hset]
      _ ↔ a ∈ pass Marks l ∅ := by rw [hperm _ hsplit]
      _ ↔ Marks ∅ a := mem_pass_iff_on_sight hnodup hperm ha
  · intro hinsensitive l' hl'
    rw [pass_of_insensitive hinsensitive (hl'.nodup_iff.2 hnodup) fun a ha => hl'.mem_iff.1 ha,
      pass_of_insensitive hinsensitive hnodup fun a ha => ha]
    simp [hl'.mem_iff]

end Permutations

end OnePass
