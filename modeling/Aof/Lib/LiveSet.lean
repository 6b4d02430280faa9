import Mathlib.Data.List.Basic

/-!
# A set that changes while it is read

The keys stand in the order in which they were added, each at a place that no other key ever has.  A
reader goes from place to place: it finds the keys that are added behind it and misses those that
are taken away.
-/

structure LiveSet (Key : Type) where
  entries : List (Nat × Key)
  next : Nat
  sorted : entries.Pairwise (·.1 < ·.1)
  bounded : ∀ entry ∈ entries, entry.1 < next

namespace LiveSet

variable {Key : Type}

def empty : LiveSet Key := ⟨[], 0, .nil, List.forall_mem_nil _⟩

def after (keys : LiveSet Key) (place : Nat) : Option (Nat × Key) :=
  keys.entries.find? (place ≤ ·.1)

variable {keys : LiveSet Key} {key : Key}

theorem sorted_append : (keys.entries ++ [(keys.next, key)]).Pairwise (·.1 < ·.1) := by
  rw [List.pairwise_append]
  refine ⟨keys.sorted, List.pairwise_singleton _ _, fun entry hentry last hlast => ?_⟩
  rw [List.mem_singleton.mp hlast]
  exact keys.bounded entry hentry

theorem bounded_append : ∀ entry ∈ keys.entries ++ [(keys.next, key)], entry.1 < keys.next + 1 := by
  intro entry hentry
  rcases List.mem_append.mp hentry with hold | hnew
  · exact Nat.lt_succ_of_lt (keys.bounded entry hold)
  · rw [List.mem_singleton.mp hnew]
    exact Nat.lt_succ_self _

instance : Membership Key (LiveSet Key) where
  mem keys key := key ∈ keys.entries.map Prod.snd

theorem after_le {place : Nat} (hentry : (place, key) ∈ keys.entries) {start : Nat}
    (hstart : start ≤ place) :
    ∃ found, keys.after start = some found ∧ (found = (place, key) ∨ found.1 < place) := by
  have hsome : (keys.after start).isSome = true := by
    rw [after, List.find?_isSome]
    exact ⟨_, hentry, by simpa using hstart⟩
  obtain ⟨found, hfound⟩ := Option.isSome_iff_exists.mp hsome
  obtain ⟨-, front, back, hentries, hfront⟩ := List.find?_eq_some_iff_append.mp hfound
  refine ⟨found, hfound, ?_⟩
  rw [hentries, List.mem_append, List.mem_cons] at hentry
  rcases hentry with hbefore | heq | hbehind
  · have hnot := hfront _ hbefore
    exact absurd hstart (by simpa using hnot)
  · exact Or.inl heq.symm
  · have hsorted := keys.sorted
    rw [hentries, List.pairwise_append, List.pairwise_cons] at hsorted
    exact Or.inr (hsorted.2.1.1 _ hbehind)

section

variable [DecidableEq Key]

def add (keys : LiveSet Key) (key : Key) : LiveSet Key :=
  if key ∈ keys.entries.map Prod.snd then keys
  else ⟨keys.entries ++ [(keys.next, key)], keys.next + 1, sorted_append, bounded_append⟩

theorem sorted_filter {keys : LiveSet Key} {key : Key} :
    (keys.entries.filter (·.2 ≠ key)).Pairwise (·.1 < ·.1) :=
  keys.sorted.filter _

theorem bounded_filter {keys : LiveSet Key} {key : Key} :
    ∀ entry ∈ keys.entries.filter (·.2 ≠ key), entry.1 < keys.next :=
  fun entry hentry => keys.bounded entry (List.mem_of_mem_filter hentry)

def delete (keys : LiveSet Key) (key : Key) : LiveSet Key :=
  ⟨keys.entries.filter (·.2 ≠ key), keys.next, sorted_filter, bounded_filter⟩

variable {keys : LiveSet Key} {key other : Key} {place : Nat}

theorem entries_add (hentry : (place, key) ∈ keys.entries) :
    (place, key) ∈ (keys.add other).entries := by
  unfold add
  split
  · exact hentry
  · exact List.mem_append_left _ hentry

theorem entries_delete (hentry : (place, key) ∈ keys.entries) (hne : key ≠ other) :
    (place, key) ∈ (keys.delete other).entries :=
  List.mem_filter.mpr ⟨hentry, by simpa using hne⟩

end

end LiveSet
