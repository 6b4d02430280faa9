import Mathlib.Data.List.Induction
import Mathlib.Data.List.Nodup
import Mathlib.Data.List.Sort

/-!
# Insertion-ordered dictionaries

A dictionary lists its entries in the order in which their keys were first set.  Overwriting a
key keeps its place, which is why Mathlib's `AList` (whose `insert` moves the key to the front)
is not used.  That no key occurs twice is a field of the structure.
-/

universe u v

structure Dict (Key : Type u) (Value : Type v) where
  entries : List (Key × Value)
  nodup : (entries.map Prod.fst).Nodup

namespace Dict

variable {Key : Type u} {Value : Type v}

def empty : Dict Key Value := ⟨[], by simp⟩

def keys (d : Dict Key Value) : List Key := d.entries.map Prod.fst

def values (d : Dict Key Value) : List Value := d.entries.map Prod.snd

theorem mem_values {d : Dict Key Value} {value : Value} :
    value ∈ d.values ↔ ∃ key, (key, value) ∈ d.entries := by
  simp [values]

section Lookup

variable [DecidableEq Key]

def getEntries (key : Key) : List (Key × Value) → Option Value
  | [] => none
  | entry :: rest => if entry.1 = key then some entry.2 else getEntries key rest

def setEntries (key : Key) (value : Value) : List (Key × Value) → List (Key × Value)
  | [] => [(key, value)]
  | entry :: rest =>
      if entry.1 = key then (key, value) :: rest else entry :: setEntries key value rest

theorem map_fst_setEntries (key : Key) (value : Value) (entries : List (Key × Value)) :
    (setEntries key value entries).map Prod.fst =
      if key ∈ entries.map Prod.fst then entries.map Prod.fst
      else entries.map Prod.fst ++ [key] := by
  induction entries with
  | nil => simp [setEntries]
  | cons entry rest ih =>
      by_cases heq : entry.1 = key
      · simp [setEntries, heq]
      · simp only [setEntries, heq, ↓reduceIte, List.map_cons, ih, List.mem_cons, Ne.symm heq,
          false_or]
        split <;> rfl

variable {entries : List (Key × Value)} {key : Key} {value : Value} {d d' : Dict Key Value}
  {α : Type*}

theorem nodup_setEntries (key : Key) (value : Value) (hnodup : (entries.map Prod.fst).Nodup) :
    ((setEntries key value entries).map Prod.fst).Nodup := by
  rw [map_fst_setEntries]
  split
  · exact hnodup
  · rename_i hnew
    exact hnodup.append (List.nodup_singleton key) (by simpa using hnew)

theorem getEntries_setEntries (key other : Key) (value : Value)
    (entries : List (Key × Value)) :
    getEntries other (setEntries key value entries) =
      if key = other then some value else getEntries other entries := by
  induction entries with
  | nil => simp [setEntries, getEntries]
  | cons entry rest ih =>
      by_cases heq : entry.1 = key
      · simp only [setEntries, heq, ↓reduceIte, getEntries]
        split <;> rfl
      · simp only [setEntries, heq, ↓reduceIte, getEntries, ih]
        by_cases hother : entry.1 = other
        · have hne : key ≠ other := fun h => heq (hother.trans h.symm)
          simp [hother, hne]
        · simp [hother]

theorem getEntries_eq_none_iff : getEntries key entries = none ↔ key ∉ entries.map Prod.fst := by
  induction entries with
  | nil => exact iff_of_true rfl List.not_mem_nil
  | cons entry rest ih =>
      rw [getEntries, List.map_cons, List.mem_cons, not_or]
      split
      · rename_i heq
        exact iff_of_false (fun h => by cases h) fun h => h.1 heq.symm
      · rename_i hne
        rw [ih]
        exact (and_iff_right fun h => hne h.symm).symm

theorem mem_of_getEntries (hget : getEntries key entries = some value) :
    (key, value) ∈ entries := by
  induction entries with
  | nil => cases hget
  | cons entry rest ih =>
      rw [getEntries] at hget
      split at hget
      · rename_i heq
        obtain rfl := heq
        obtain rfl := Option.some.inj hget
        exact List.mem_cons_self
      · exact List.mem_cons_of_mem _ (ih hget)

theorem getEntries_eq_some_iff (hnodup : (entries.map Prod.fst).Nodup) :
    getEntries key entries = some value ↔ (key, value) ∈ entries := by
  induction entries with
  | nil => simp [getEntries]
  | cons entry rest ih =>
      rw [List.map_cons, List.nodup_cons] at hnodup
      by_cases heq : entry.1 = key
      · have hnot : (key, value) ∉ rest := fun hmem =>
          hnodup.1 (heq ▸ List.mem_map_of_mem (f := Prod.fst) hmem)
        simp [getEntries, heq, hnot, Prod.ext_iff, eq_comm]
      · simp [getEntries, heq, ih hnodup.2, Prod.ext_iff, Ne.symm heq]

def get? (d : Dict Key Value) (key : Key) : Option Value := getEntries key d.entries

def set (d : Dict Key Value) (key : Key) (value : Value) : Dict Key Value :=
  ⟨setEntries key value d.entries, nodup_setEntries key value d.nodup⟩

def has (d : Dict Key Value) (key : Key) : Bool := (d.get? key).isSome

def erase (d : Dict Key Value) (key : Key) : Dict Key Value :=
  ⟨d.entries.filter fun entry => entry.1 ≠ key, (List.filter_sublist.map _).nodup d.nodup⟩

/-- `{ ...d, ...d' }` -/
def merge (d d' : Dict Key Value) : Dict Key Value :=
  d'.entries.foldl (fun merged entry => merged.set entry.1 entry.2) d

@[simp]
theorem get?_empty (key : Key) : (empty : Dict Key Value).get? key = none := rfl

theorem get?_set (d : Dict Key Value) (key other : Key) (value : Value) :
    (d.set key value).get? other = if key = other then some value else d.get? other :=
  getEntries_setEntries key other value d.entries

@[simp]
theorem get?_set_self (d : Dict Key Value) (key : Key) (value : Value) :
    (d.set key value).get? key = some value := by
  simp [get?_set]

theorem get?_set_of_ne (d : Dict Key Value) {other : Key} (value : Value) (hne : key ≠ other) :
    (d.set key value).get? other = d.get? other := by
  simp [get?_set, hne]

theorem get?_eq_some_iff : d.get? key = some value ↔ (key, value) ∈ d.entries :=
  getEntries_eq_some_iff d.nodup

theorem mem_values_iff_get? : value ∈ d.values ↔ ∃ key, d.get? key = some value := by
  simp only [mem_values, get?_eq_some_iff]

theorem keys_set (d : Dict Key Value) (key : Key) (value : Value) :
    (d.set key value).keys = if key ∈ d.keys then d.keys else d.keys ++ [key] :=
  map_fst_setEntries key value d.entries

theorem mem_keys_iff : key ∈ d.keys ↔ ∃ value, d.get? key = some value := by
  simp [keys, get?_eq_some_iff]

theorem setEntries_of_not_mem (hnew : key ∉ entries.map Prod.fst) (value : Value) :
    setEntries key value entries = entries ++ [(key, value)] := by
  induction entries with
  | nil => rfl
  | cons entry rest ih =>
      have hne : entry.1 ≠ key := fun heq => hnew (heq ▸ List.mem_cons_self)
      rw [setEntries, if_neg hne, List.cons_append]
      congr 1
      apply ih
      exact fun hmem => hnew (List.mem_cons_of_mem _ hmem)

theorem entries_set_of_not_mem (hnew : key ∉ d.keys) (value : Value) :
    (d.set key value).entries = d.entries ++ [(key, value)] :=
  setEntries_of_not_mem hnew value

theorem keys_set_of_get? {old : Value} (hold : d.get? key = some old) (value : Value) :
    (d.set key value).keys = d.keys := by
  rw [keys_set, if_pos (mem_keys_iff.2 ⟨old, hold⟩)]

theorem map_entries_congr {β : Type*} (field : Value → β) (hkeys : d.keys = d'.keys)
    (hget : ∀ key, (d.get? key).map field = (d'.get? key).map field) :
    d.entries.map (fun entry => (entry.1, field entry.2)) =
      d'.entries.map fun entry => (entry.1, field entry.2) := by
  have hlist : ∀ c : Dict Key Value,
      c.entries.map (fun entry => (some entry.1, some (field entry.2))) =
        c.keys.map fun key => (some key, (c.get? key).map field) := by
    intro c
    rw [keys, List.map_map]
    refine List.map_congr_left fun entry hentry => ?_
    simp [get?_eq_some_iff.2 hentry]
  have hboth := (hlist d).trans ((by simp [hkeys, hget]) : _ = _) |>.trans (hlist d').symm
  have hinj : Function.Injective
      fun pair : Key × β => ((some pair.1 : Option Key), (some pair.2 : Option β)) := by
    intro a b hab
    simpa [Prod.ext_iff] using hab
  refine List.map_injective_iff.2 hinj ?_
  rw [List.map_map, List.map_map]
  exact hboth

theorem eq_of_get? (hkeys : d.keys = d'.keys) (hget : ∀ key, d.get? key = d'.get? key) :
    d = d' := by
  have hentries : d.entries = d'.entries := by
    simpa using map_entries_congr id hkeys fun key => by rw [hget]
  cases d
  cases d'
  congr

theorem set_eq_self_iff : d.set key value = d ↔ d.get? key = some value := by
  constructor
  · intro hset
    rw [← hset]
    exact get?_set_self d key value
  · intro hget
    apply eq_of_get? (keys_set_of_get? hget value)
    intro other
    rw [get?_set]
    split
    · rename_i hkey
      exact hkey ▸ hget.symm
    · rfl

theorem has_set (d : Dict Key Value) (key other : Key) (value : Value) :
    (d.set key value).has other = (decide (key = other) || d.has other) := by
  by_cases heq : key = other <;> simp [has, get?_set, heq]

theorem has_iff : d.has key = true ↔ key ∈ d.keys := by
  rw [has, mem_keys_iff, Option.isSome_iff_exists]

theorem keys_erase (d : Dict Key Value) (key : Key) :
    (d.erase key).keys = d.keys.filter fun other => other ≠ key := by
  simp only [erase, keys, List.filter_map, Function.comp_def]

theorem get?_erase (d : Dict Key Value) (key other : Key) :
    (d.erase key).get? other = if other = key then none else d.get? other := by
  ext value
  simp only [get?_eq_some_iff, erase, List.mem_filter, decide_eq_true_eq]
  split
  · rename_i hkey
    simp [hkey]
  · rename_i hkey
    rw [get?_eq_some_iff]
    exact and_iff_left hkey

theorem erase_eq_self_iff : d.erase key = d ↔ key ∉ d.keys := by
  constructor
  · intro herase hkey
    rw [← herase, keys_erase, List.mem_filter] at hkey
    exact of_decide_eq_true hkey.2 rfl
  · intro hkey
    have hkeys : (d.erase key).keys = d.keys := by
      rw [keys_erase, List.filter_eq_self]
      intro other hother
      exact decide_eq_true fun h => hkey (h ▸ hother)
    apply eq_of_get? hkeys
    intro other
    rw [get?_erase]
    split
    · rename_i hother
      have hnone : ¬∃ value, d.get? key = some value := fun h => hkey (mem_keys_iff.2 h)
      exact hother ▸ (Option.eq_none_iff_forall_ne_some.mpr fun value h => hnone ⟨value, h⟩).symm
    · rfl

theorem has_erase (d : Dict Key Value) (key other : Key) :
    (d.erase key).has other = (d.has other && decide (other ≠ key)) := by
  rw [Bool.eq_iff_iff, Bool.and_eq_true, has_iff, has_iff, keys_erase, List.mem_filter]

theorem get?_foldl_set (key : α → Key) (value : α → Value) (xs : List α) (d : Dict Key Value)
    (hnodup : (xs.map key).Nodup) (other : Key) :
    (xs.foldl (fun d x => d.set (key x) (value x)) d).get? other =
      ((xs.find? fun x => key x = other).map value).or (d.get? other) := by
  induction xs generalizing d with
  | nil => simp
  | cons x xs ih =>
      rw [List.map_cons, List.nodup_cons] at hnodup
      rw [List.foldl_cons, ih _ hnodup.2, get?_set]
      by_cases heq : key x = other
      · have hnone : xs.find? (fun y => key y = other) = none := by
          rw [List.find?_eq_none]
          intro y hy hyo
          exact hnodup.1 (List.mem_map.2 ⟨y, hy, by simpa [heq] using hyo⟩)
        simp [heq, hnone]
      · simp [heq]

theorem get?_foldl_set_latest (key : α → Key) (value : α → Value) (xs : List α)
    (d : Dict Key Value) (other : Key) :
    (xs.foldl (fun d x => d.set (key x) (value x)) d).get? other =
      ((xs.reverse.find? fun x => key x = other).map value).or (d.get? other) := by
  induction xs using List.reverseRecOn with
  | nil => rfl
  | append_singleton xs x ih =>
      rw [List.foldl_append, List.foldl_cons, List.foldl_nil, get?_set, List.reverse_append,
        List.reverse_singleton, List.singleton_append, List.find?_cons]
      by_cases heq : key x = other
      · simp [heq]
      · simp [heq, ih]

end Lookup

end Dict
