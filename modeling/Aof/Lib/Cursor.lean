import Mathlib.Data.List.Nodup
import Mathlib.Data.List.Sort
import Mathlib.Order.Basic

/-!
# Reading a log behind a cursor

A reader of a growing log keeps the time of the last entry that it has read, and takes the later
entries in the order of their times.  An entry of the log comes with its position, since entries may
be equal.
-/

namespace Cursor

variable {Entry Time : Type*} [LinearOrder Time] (time : Entry → Time)

/-- The entries that are later than the cursor; the sort is stable. -/
def unread (log : List Entry) (cursor : Time) : List (Entry × Nat) :=
  (log.zipIdx.filter fun entry => decide (cursor < time entry.1)).insertionSort
    fun a b => time a.1 ≤ time b.1

/-- The log is in the order of its times, a beginning of it has been read, and the cursor separates
what has been read from what has not. -/
structure Covers (log : List Entry) (cursor : Time) (taken : List (Entry × Nat)) : Prop where
  sorted : log.Pairwise fun a b => time a ≤ time b
  beginning : taken <+: log.zipIdx
  reached : ∀ entry ∈ taken, time entry.1 ≤ cursor
  ahead : ∀ entry ∈ log.zipIdx, entry ∉ taken → cursor < time entry.1

variable {time} {log : List Entry} {cursor : Time} {taken batch : List (Entry × Nat)}

theorem nodup_zipIdx (log : List Entry) : log.zipIdx.Nodup := by
  apply List.Nodup.of_map Prod.snd
  rw [List.zipIdx_map_snd]
  exact List.nodup_range'

theorem mem_unread {entry : Entry × Nat} :
    entry ∈ unread time log cursor ↔ entry ∈ log.zipIdx ∧ cursor < time entry.1 := by
  rw [unread, List.mem_insertionSort, List.mem_filter, decide_eq_true_iff]

theorem pairwise_zipIdx (hsorted : log.Pairwise fun a b => time a ≤ time b) :
    log.zipIdx.Pairwise fun a b => time a.1 ≤ time b.1 := by
  rw [← List.zipIdx_map_fst 0 log, List.pairwise_map] at hsorted
  exact hsorted

theorem Covers.taken_append_unread (hcovers : Covers time log cursor taken) :
    taken ++ unread time log cursor = log.zipIdx := by
  obtain ⟨rest, hrest⟩ := hcovers.beginning
  have hdisjoint : ∀ entry ∈ rest, entry ∉ taken := by
    have hnodup := nodup_zipIdx log
    rw [← hrest] at hnodup
    exact fun entry hmem htaken => List.disjoint_of_nodup_append hnodup htaken hmem
  have htaken : taken.filter (fun entry => decide (cursor < time entry.1)) = [] := by
    apply List.filter_eq_nil_iff.mpr
    intro entry hmem
    rw [decide_eq_true_iff]
    exact not_lt_of_ge (hcovers.reached entry hmem)
  have hleft : rest.filter (fun entry => decide (cursor < time entry.1)) = rest := by
    apply List.filter_eq_self.mpr
    intro entry hmem
    apply decide_eq_true
    apply hcovers.ahead entry _ (hdisjoint entry hmem)
    rw [← hrest]
    exact List.mem_append_right _ hmem
  have hsorted : rest.Pairwise fun a b => time a.1 ≤ time b.1 := by
    have hall := pairwise_zipIdx hcovers.sorted
    rw [← hrest] at hall
    exact (List.pairwise_append.mp hall).2.1
  calc taken ++ unread time log cursor
      = taken ++ rest.insertionSort fun a b => time a.1 ≤ time b.1 := by
        rw [unread, ← hrest, List.filter_append, htaken, hleft, List.nil_append]
    _ = taken ++ rest := by rw [hsorted.insertionSort_eq]
    _ = log.zipIdx := hrest

theorem Covers.append (hcovers : Covers time log cursor taken) {entry : Entry}
    (hlate : ∀ earlier ∈ log, time earlier ≤ time entry) (hahead : cursor < time entry) :
    Covers time (log ++ [entry]) cursor taken := by
  have hzip : (log ++ [entry]).zipIdx = log.zipIdx ++ [(entry, log.length)] := by
    rw [List.zipIdx_append, Nat.zero_add]
    rfl
  refine ⟨?_, ?_, hcovers.reached, ?_⟩
  · apply List.pairwise_append.mpr
    refine ⟨hcovers.sorted, List.pairwise_singleton _ _, ?_⟩
    intro earlier hmem later hlater
    rw [List.mem_singleton.mp hlater]
    exact hlate earlier hmem
  · rw [hzip]
    exact hcovers.beginning.trans (List.prefix_append _ _)
  · intro other hmem htaken
    rw [hzip] at hmem
    cases List.mem_append.mp hmem with
    | inl hmem => exact hcovers.ahead other hmem htaken
    | inr hmem =>
        rw [List.mem_singleton.mp hmem]
        exact hahead

theorem Covers.advance (hcovers : Covers time log cursor taken) {latest : Time}
    (hbatch : taken ++ batch <+: log.zipIdx) (hlatest : ∀ entry ∈ batch, time entry.1 ≤ latest)
    (hforward : cursor ≤ latest)
    (hrest : ∀ entry ∈ unread time log cursor, entry ∉ batch → latest < time entry.1) :
    Covers time log latest (taken ++ batch) := by
  refine ⟨hcovers.sorted, hbatch, ?_, ?_⟩
  · intro entry hmem
    cases List.mem_append.mp hmem with
    | inl hmem => exact (hcovers.reached entry hmem).trans hforward
    | inr hmem => exact hlatest entry hmem
  · intro entry hmem hnot
    rw [List.mem_append, not_or] at hnot
    apply hrest entry _ hnot.2
    exact mem_unread.mpr ⟨hmem, hcovers.ahead entry hmem hnot.1⟩

theorem covers_nil (hsorted : log.Pairwise fun a b => time a ≤ time b)
    (hahead : ∀ entry ∈ log, cursor < time entry) : Covers time log cursor [] where
  sorted := hsorted
  beginning := List.nil_prefix
  reached := nofun
  ahead entry hmem _ := hahead entry.1 (List.fst_mem_of_mem_zipIdx hmem)

/-- No entry is in two batches, the batches are in the order of the log, and they leave out no entry
before the last one that they have. -/
structure Gapless (log : List Entry) (batches : List (List (Entry × Nat))) : Prop where
  logged : ∀ entry ∈ batches.flatten, entry ∈ log.zipIdx
  disjoint : batches.Pairwise List.Disjoint
  ordered : batches.flatten.Pairwise fun a b => a.2 < b.2
  complete : ∀ entry ∈ log.zipIdx, ∀ last ∈ batches.flatten, entry.2 ≤ last.2 →
    entry ∈ batches.flatten

theorem pairwise_position (log : List Entry) : log.zipIdx.Pairwise fun a b => a.2 < b.2 := by
  rw [← List.pairwise_map (f := Prod.snd) (R := (· < ·)), List.zipIdx_map_snd]
  exact List.pairwise_lt_range'

theorem gapless_of_prefix {batches : List (List (Entry × Nat))}
    (hbeginning : batches.flatten <+: log.zipIdx) : Gapless log batches := by
  obtain ⟨rest, hrest⟩ := hbeginning
  have hpositions := pairwise_position log
  rw [← hrest] at hpositions
  obtain ⟨hordered, -, hbefore⟩ := List.pairwise_append.mp hpositions
  refine ⟨?_, ?_, hordered, ?_⟩
  · intro entry hmem
    rw [← hrest]
    exact List.mem_append_left _ hmem
  · have hnodup := nodup_zipIdx log
    rw [← hrest] at hnodup
    exact (List.nodup_flatten.mp hnodup.of_append_left).2
  · intro entry hmem last hlast hle
    rw [← hrest] at hmem
    cases List.mem_append.mp hmem with
    | inl hmem => exact hmem
    | inr hmem =>
        have hlt := hbefore last hlast entry hmem
        omega

end Cursor
